import Attos.UnmapMemory

/-!
# The ranges of the mappings

In a careful run an address is translated only if it is in the range of a recorded mapping
(`covered`): so addresses that are mapped were not translated before. What is recorded changes by
the range that is mapped or unmapped. The addresses that a manager hands out itself stay in one
half, as long as they start in it and the ranges are not long: the page with the records has room
for 85 of them (`mapMemory_allocated`).
-/

namespace Attos

open Lib

namespace MemoryManager

/-- The range of a recorded mapping. -/
def HasMapping (s : MemoryManager) (virt length : Word) : Prop :=
  ∃ l, s.Records l ∧ ∃ m ∈ l, (s.mappings m).addr_ = virt ∧ (s.mappings m).length_ = length

variable {s s' : MemoryManager} {level : Word → Option ℕ} {l : List ℕ} {fuel : ℕ}
  {virt length phys ret a n v : Word} {type : MemoryType}

/-- What a call of `do_map_memory` that returns records. -/
theorem hasMapping_of_map (hs : CarefullyReachable s)
    (hrun : s.mapMemory fuel virt length type phys = .done (ret, s')) (hhalf : InHalf ret length) :
    (s'.HasMapping a n ↔ a = ret ∧ n = length ∨ s.HasMapping a n) ∧
      (s.HasMapping a n → ∀ v, InRange ret length v → ¬ InRange a n v) := by
  obtain ⟨level, l, ht, hagree⟩ := carefullyReachable_agree hs
  have hm := mapMemory_eq_done hrun
  obtain ⟨s₁, hsame, hrec, hloop⟩ := hm.run
  obtain ⟨-, -, hr⟩ := (ht.congr hsame).mapLoop hloop
  obtain ⟨l', hadded⟩ := hagree.listed.added hrec hr
  refine ⟨⟨?_, ?_⟩, ?_⟩
  · rintro ⟨l₁, hl₁, m, hmem, rfl, rfl⟩
    obtain rfl := hadded.listed.records.unique hl₁
    obtain rfl | hmem := (hadded.mem m).mp hmem
    · rw [hadded.self]
      exact .inl ⟨rfl, rfl⟩
    · rw [hadded.old m hmem]
      exact .inr ⟨l, hagree.records, m, hmem, rfl, rfl⟩
  · rintro (⟨rfl, rfl⟩ | ⟨l₁, hl₁, m, hmem, rfl, rfl⟩)
    · exact ⟨l', hadded.listed.records, s.cur_, (hadded.mem _).mpr (.inl rfl), by rw [hadded.self], by rw [hadded.self]⟩
    · obtain rfl := hagree.records.unique hl₁
      exact ⟨l', hadded.listed.records, m, (hadded.mem m).mpr (.inr hmem), by rw [hadded.old m hmem],
        by rw [hadded.old m hmem]⟩
  · rintro ⟨l₁, hl₁, m, hmem, rfl, rfl⟩ v hnew hold
    obtain rfl := hagree.records.unique hl₁
    exact hadded.free m hmem (memoryAreasOverlap_of_inRange hm.no_wrap (hagree.inTables m hmem).no_wrap
      hhalf.length_lt hnew hold)

/-- A recorded range is in one half. -/
theorem HasMapping.inHalf (h : s.HasMapping a n) (hs : CarefullyReachable s) : InHalf a n := by
  obtain ⟨level, l, ht, hagree⟩ := carefullyReachable_agree hs
  obtain ⟨l₁, hl₁, m, hm, rfl, rfl⟩ := h
  obtain rfl := hagree.records.unique hl₁
  exact (hagree.inTables m hm).half

/-- Recorded ranges that start at different addresses have no common address. -/
theorem HasMapping.apart {a' n' : Word} (h : s.HasMapping a n) (h' : s.HasMapping a' n') (hs : CarefullyReachable s)
    (hne : a ≠ a') (hv : InRange a n v) : ¬ InRange a' n' v := by
  obtain ⟨level, l, ht, hagree⟩ := carefullyReachable_agree hs
  obtain ⟨l₁, hl₁, m, hm, rfl, rfl⟩ := h
  obtain rfl := hagree.records.unique hl₁
  obtain ⟨l₂, hl₂, m', hm', rfl, rfl⟩ := h'
  obtain rfl := hagree.records.unique hl₂
  have hmne : m ≠ m' := by
    rintro rfl
    exact hne rfl
  exact hagree.not_inRange hm hm' hmne hv

/-- A range that is recorded can be unmapped. -/
theorem HasMapping.unmaps (h : s.HasMapping virt length) (hs : CarefullyReachable s)
    (hwrap : virt.toNat + length.toNat < 2 ^ 64) (hrun : s.unmapMemory fuel virt length = .done s') :
    Unmaps s s' virt length ∧ CarefullyReachable s' := by
  obtain ⟨level, l₁, ht, hagree⟩ := carefullyReachable_agree hs
  obtain ⟨l, hl, m, hm, haddr, -⟩ := h
  have hat : AtMapping s virt length := ⟨⟨l, hl, m, hm, haddr⟩, hwrap⟩
  exact ⟨(hagree.unmap ht hat hrun).1, hs.step (.unmap hrun hat)⟩

/-- What a call of `do_unmap_memory` leaves. -/
theorem Unmaps.hasMapping (h : Unmaps s s' virt length) (hm : s.HasMapping a n) (hne : ¬ (a = virt ∧ n = length)) :
    s'.HasMapping a n := by
  obtain ⟨⟨l, hl, m, -, haddr, hlength, hl', hmappings⟩, -⟩ := h
  obtain ⟨l₁, hl₁, m₁, hm₁, rfl, rfl⟩ := hm
  obtain rfl := hl.unique hl₁
  have hmne : m₁ ≠ m := by
    rintro rfl
    exact hne ⟨haddr, hlength⟩
  exact ⟨l.erase m, hl', m₁, (List.mem_erase_of_ne hmne).mpr hm₁, by rw [hmappings], by rw [hmappings]⟩

/-- What happens elsewhere does not change what is recorded. -/
theorem Elsewhere.hasMapping (he : Elsewhere s s') : s'.HasMapping a n ↔ s.HasMapping a n := by
  rw [he.eq]
  rfl

/-- Nor does it change the translations. -/
theorem Elsewhere.virtToPhys_eq (he : Elsewhere s s') (ht : Tables s level) :
    virtToPhys s'.mem s'.pml4_ v = virtToPhys s.mem s.pml4_ v := by
  have hentry : s'.entryAt (indices v) = s.entryAt (indices v) := by
    rw [he.eq]
    exact RadixTable.lookup_congr ht.forest ht.root (fun p n i hp => he.mem p (ht.used hp) i) _
  rw [(ht.elsewhere he).virtToPhys, ht.virtToPhys, hentry]

/-- An address that is translated is in the range of a mapping. -/
def Covered (s : MemoryManager) : Prop :=
  ∀ v, Canonical v → virtToPhys s.mem s.pml4_ v ≠ .abort → ∃ a n, s.HasMapping a n ∧ InRange a n v

theorem Init.covered (h : Init s) : Covered s := by
  intro v _ hne
  refine absurd ?_ hne
  have habsent : ¬ Present (s.mem (tableEntry s.pml4_) (pml4e v)) := by
    rw [h.isPage, h.clear]
    decide
  rw [virtToPhys, Outcome.require_neg habsent]
  rfl

/-- **Only addresses of mappings are translated** in careful runs. -/
theorem covered (hs : CarefullyReachable s) : Covered s := by
  suffices h : CarefullyReachable s ∧ Covered s from h.2
  refine Reach.invariant (fun s => CarefullyReachable s ∧ Covered s) hs (fun s h => ⟨.start h, h.covered⟩) ?_
  rintro s s' ⟨hs, hcov⟩ hstep
  refine ⟨hs.step hstep, ?_⟩
  intro v hv hne
  obtain ⟨level, l, ht, hagree⟩ := carefullyReachable_agree hs
  cases hstep with
  | @map _ virt length phys ret type hrun hhalf =>
    by_cases hin : InRange ret length v
    · exact ⟨ret, length, (hasMapping_of_map hs hrun hhalf).1.mpr (.inl ⟨rfl, rfl⟩), hin⟩
    · rw [((mapMemory_eq_done hrun).translates ht hhalf).2 v hv hin] at hne
      obtain ⟨a, n, hm, hr⟩ := hcov v hv hne
      exact ⟨a, n, (hasMapping_of_map hs hrun hhalf).1.mpr (.inr hm), hr⟩
  | @unmap _ virt length hrun hat =>
    obtain ⟨hu, -⟩ := hagree.unmap ht hat hrun
    by_cases hin : InRange virt length v
    · exact absurd (hu.2.1 v hin) hne
    · rw [hu.2.2 v hv hin] at hne
      obtain ⟨a, n, hm, hr⟩ := hcov v hv hne
      refine ⟨a, n, hu.hasMapping hm ?_, hr⟩
      rintro ⟨rfl, rfl⟩
      exact hin hr
  | elsewhere he =>
    rw [he.virtToPhys_eq ht] at hne
    obtain ⟨a, n, hm, hr⟩ := hcov v hv hne
    exact ⟨a, n, he.hasMapping.mpr hm, hr⟩

/-! ## Allocated addresses -/

theorem Tables.mapLoop_records (ht : Tables s level) {s₀ : MemoryManager}
    (hloop : MemoryManager.mapLoop type fuel s₀ virt length phys = .done s') (hsame : SameTables s s₀) :
    SameRecords s₀ s' := by
  obtain ⟨-, -, hr⟩ := (ht.congr hsame).mapLoop hloop
  exact hr

/-- What `do_map_memory` does when it allocates the addresses. -/
theorem mapMemory_allocated (hs : CarefullyReachable s)
    (hrun : s.mapMemory fuel mapAllocVirt length type phys = .done (ret, s')) :
    ret = s.freeVirtBase_ ∧ s'.freeVirtBase_.toNat = s.freeVirtBase_.toNat + length.toNat ∧
      s'.cur_ = s.cur_ + sizeofMemoryMapping ∧ s'.cur_ ≤ 4096 := by
  obtain ⟨level, l, ht, -⟩ := carefullyReachable_agree hs
  have hret := mapMemory_ret hrun
  rw [mapMemory] at hrun
  obtain ⟨-, hrun⟩ := Outcome.require_bind_eq_done.mp hrun
  obtain ⟨-, hrun⟩ := Outcome.require_bind_eq_done.mp hrun
  obtain ⟨-, hrun⟩ := Outcome.require_bind_eq_done.mp hrun
  obtain ⟨-, hrun⟩ := Outcome.require_bind_eq_done.mp hrun
  obtain ⟨⟨start, s₁⟩, hchoose, hrun⟩ := Outcome.bind_eq_done.mp hrun
  obtain ⟨-, hrun⟩ := Outcome.require_bind_eq_done.mp hrun
  obtain ⟨-, hrun⟩ := Outcome.require_bind_eq_done.mp hrun
  obtain ⟨it, -, hrun⟩ := Outcome.bind_eq_done.mp hrun
  obtain ⟨-, hrun⟩ := Outcome.require_bind_eq_done.mp hrun
  obtain ⟨-, hrun⟩ := Outcome.require_bind_eq_done.mp hrun
  obtain ⟨⟨mm, s₂⟩, hconstruct, hrun⟩ := Outcome.bind_eq_done.mp hrun
  obtain ⟨tree, -, hrun⟩ := Outcome.bind_eq_done.mp hrun
  obtain ⟨s₃, hloop, hrun⟩ := Outcome.bind_eq_done.mp hrun
  cases hrun
  -- the allocation
  rw [chooseVirt, if_pos (.inl rfl), virtualAlloc] at hchoose
  obtain ⟨-, hchoose⟩ := Outcome.require_bind_eq_done.mp hchoose
  obtain ⟨hwrap, hchoose⟩ := Outcome.require_bind_eq_done.mp hchoose
  cases hchoose
  have hbase : (s.freeVirtBase_ + length).toNat = s.freeVirtBase_.toNat + length.toNat := by
    rw [BitVec.le_def, BitVec.toNat_add] at hwrap
    rw [BitVec.toNat_add]
    have := s.freeVirtBase_.isLt
    have := length.isLt
    omega
  -- the record
  rw [construct] at hconstruct
  obtain ⟨hroom, hconstruct⟩ := Outcome.require_bind_eq_done.mp hconstruct
  obtain ⟨-, hconstruct⟩ := Outcome.require_bind_eq_done.mp hconstruct
  cases hconstruct
  -- the loop
  have hr := ht.mapLoop_records hloop ⟨rfl, rfl, rfl, rfl⟩
  rw [hr]
  exact ⟨hret, hbase, rfl, hroom⟩

/-- What `do_unmap_memory` keeps. -/
theorem unmapMemory_keeps (hs : CarefullyReachable s) (hrun : s.unmapMemory fuel virt length = .done s') :
    s'.freeVirtBase_ = s.freeVirtBase_ ∧ s'.cur_ = s.cur_ := by
  obtain ⟨level, l, ht, -⟩ := carefullyReachable_agree hs
  obtain ⟨m, tree, s₁, -, -, -, hloop, -, hs'⟩ := unmapMemory_eq_done hrun
  have ht₀ : Tables { s with memoryMapTree_ := tree } level := ht.congr ⟨rfl, rfl, rfl, rfl⟩
  obtain ⟨-, hr⟩ := ht₀.unmapLoop hloop
  rw [hs', hr]
  exact ⟨rfl, rfl⟩

/-! ## Addresses that are not canonical -/

/-- **An address is translated like a canonical one.** -/
theorem exists_canonical (v : Word) :
    ∃ v', Canonical v' ∧ ∀ mem pml4, virtToPhys mem pml4 v = virtToPhys mem pml4 v' := by
  obtain ⟨v', hcanonical, hmod⟩ : ∃ v' : Word, Canonical v' ∧ v'.toNat % 2 ^ 48 = v.toNat % 2 ^ 48 := by
    by_cases hlower : v.toNat % 2 ^ 48 < 2 ^ 47
    · refine ⟨BitVec.ofNat 64 (v.toNat % 2 ^ 48), ?_, ?_⟩
      · rw [Canonical, BitVec.toNat_ofNat]
        omega
      · rw [BitVec.toNat_ofNat]
        omega
    · refine ⟨BitVec.ofNat 64 (v.toNat % 2 ^ 48 + (2 ^ 64 - 2 ^ 48)), ?_, ?_⟩
      · rw [Canonical, BitVec.toNat_ofNat]
        omega
      · rw [BitVec.toNat_ofNat]
        omega
  have hindices : indices v = indices v' := by
    rw [indices, indices, pml4e_eq, pdpe_eq, pde_eq, pte_eq, pml4e_eq, pdpe_eq, pde_eq, pte_eq]
    simp only [List.cons.injEq, and_true]
    omega
  have hplace (type : MemoryType) : v &&& (type.pageSize - 1) = v' &&& (type.pageSize - 1) := by
    rw [← BitVec.toNat_inj, toNat_and_pageSize, toNat_and_pageSize]
    rcases pageSize_toNat type with hP | hP | hP <;> rw [hP] <;> omega
  refine ⟨v', hcanonical, ?_⟩
  intro mem pml4
  rw [virtToPhys_eq, virtToPhys_eq, hindices]
  have hleaf (e : Option (ℕ × Word)) : translation v e = translation v' e := by
    have hgb (w : Word) : leafAddress w v 0x40000000 = leafAddress w v' 0x40000000 :=
      congrArg (_ ||| ·) (hplace MemoryType.ps1gb)
    have hmb (w : Word) : leafAddress w v 0x200000 = leafAddress w v' 0x200000 :=
      congrArg (_ ||| ·) (hplace MemoryType.ps2mb)
    have hkb (w : Word) : leafAddress w v 0x1000 = leafAddress w v' 0x1000 :=
      congrArg (_ ||| ·) (hplace MemoryType.read)
    unfold translation
    split
    · rw [hgb]
    · rw [hmb]
    · rw [hkb]
    · rfl
  exact hleaf _

end MemoryManager

end Attos
