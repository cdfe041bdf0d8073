import Attos.MappedRanges

/-!
# Conflicts between mappings

`memory_areas_overlap` takes the difference of the smaller end and the larger start of two ranges as
a signed number. The difference is the length of the part that they have in common, or the length of
the gap between them with the sign changed; the sign is right only if the former is shorter than half
of the address space and the latter is not longer than half of it (`memoryAreasOverlap_iff_meet`). So
a page in the lower half of the address space overlaps one in the upper half
(`not_memoryAreasOverlap_exact`).

The search for a conflict relies on it. In every run it reports the conflicts that exist, if some
common part is short enough or no gap is too long, and in no other case
(`memoryAreasOverlap_exact_iff`).
-/

namespace Attos

open Lib

namespace MemoryManager

variable {start₁ len₁ start₂ len₂ start₃ len₃ : Word}

/-! ## Two ranges -/

/-- A range that is not empty and does not wrap around. -/
structure IsRange (start len : Word) : Prop where
  /-- not empty -/
  len_ne : len ≠ 0
  /-- does not wrap around -/
  no_wrap : start.toNat + len.toNat < 2 ^ 64

/-- The ranges have a common address. -/
def Meet (start₁ len₁ start₂ len₂ : Word) : Prop := ∃ v, InRange start₁ len₁ v ∧ InRange start₂ len₂ v

/-- Neither the common part of the ranges nor the gap between them is too long for the sign. -/
structure Close (start₁ len₁ start₂ len₂ : Word) : Prop where
  /-- the common part, if they have one -/
  common_lt : min (start₁.toNat + len₁.toNat) (start₂.toNat + len₂.toNat) - max start₁.toNat start₂.toNat < 2 ^ 63
  /-- the gap, if there is one -/
  gap_le : max start₁.toNat start₂.toNat - min (start₁.toNat + len₁.toNat) (start₂.toNat + len₂.toNat) ≤ 2 ^ 63

/-- The larger start is a common address. -/
theorem meet_iff : Meet start₁ len₁ start₂ len₂ ↔
    max start₁.toNat start₂.toNat < min (start₁.toNat + len₁.toNat) (start₂.toNat + len₂.toNat) := by
  constructor
  · rintro ⟨v, ⟨hlo₁, hhi₁⟩, hlo₂, hhi₂⟩
    exact (max_le hlo₁ hlo₂).trans_lt (lt_min hhi₁ hhi₂)
  · intro h
    obtain ⟨h₁, h₂⟩ := lt_min_iff.mp h
    rcases le_total start₁.toNat start₂.toNat with hle | hle
    · rw [max_eq_right hle] at h₁ h₂
      exact ⟨start₂, ⟨hle, h₁⟩, le_rfl, h₂⟩
    · rw [max_eq_left hle] at h₁ h₂
      exact ⟨start₁, ⟨le_rfl, h₁⟩, hle, h₂⟩

/-- **The sign** is right if the ranges are close, and wrong if they are not. -/
theorem memoryAreasOverlap_iff_meet (h₁ : IsRange start₁ len₁) (h₂ : IsRange start₂ len₂) :
    MemoryAreasOverlap start₁ len₁ start₂ len₂ ↔
      (Meet start₁ len₁ start₂ len₂ ↔ Close start₁ len₁ start₂ len₂) := by
  have hclose : Close start₁ len₁ start₂ len₂ ↔ _ ∧ _ := ⟨fun h => ⟨h.common_lt, h.gap_le⟩, fun h => ⟨h.1, h.2⟩⟩
  rw [memoryAreasOverlap_iff h₁.no_wrap h₂.no_wrap, meet_iff, hclose]
  omega

/-- A range is longer than the part that it has in common with another one, and the gap to a third one
takes up what is left of the address space. -/
theorem Meet.close (h : Meet start₁ len₁ start₂ len₂) (hfar : ¬ Close start₁ len₁ start₂ len₂)
    (h₁ : IsRange start₁ len₁) (h₃ : IsRange start₃ len₃) (hapart : ¬ Meet start₁ len₁ start₃ len₃) :
    Close start₁ len₁ start₃ len₃ := by
  have hwrap₁ := h₁.no_wrap
  have hwrap₃ := h₃.no_wrap
  have hlong : 2 ^ 63 ≤ len₁.toNat := by
    by_contra hshort
    rw [meet_iff] at h
    exact hfar ⟨by omega, by omega⟩
  rw [meet_iff] at hapart
  exact ⟨by omega, by omega⟩

/-! ## Runs -/

variable {s s' : MemoryManager} {l : List ℕ} {addr length a n : Word}

/-- The search returns a mapping. -/
def ReportsConflict (s : MemoryManager) (addr length : Word) : Prop :=
  ∃ m, Computes (fun fuel => s.findMapping fuel addr length) (some m)

/-- A call returns, or something outside the tables changes. -/
inductive CallStep : MemoryManager → MemoryManager → Prop where
  /-- a range is mapped -/
  | map {s s' : MemoryManager} {fuel : ℕ} {virt length phys ret : Word} {type : MemoryType} :
      s.mapMemory fuel virt length type phys = .done (ret, s') → CallStep s s'
  /-- a range is unmapped -/
  | unmap {s s' : MemoryManager} {fuel : ℕ} {virt length : Word} :
      s.unmapMemory fuel virt length = .done s' → CallStep s s'
  /-- other pages change -/
  | elsewhere {s s' : MemoryManager} : Elsewhere s s' → CallStep s s'

/-- The states of all runs in which only the manager changes its records. -/
abbrev CallReachable : MemoryManager → Prop := Reach Init CallStep

/-- The tree has the mappings of the list, each of which is a range. -/
structure Ranges (s : MemoryManager) (l : List ℕ) : Prop where
  /-- the tree has the mappings of the list -/
  listed : Listed s l
  /-- which are ranges -/
  isRange : ∀ m ∈ l, IsRange (s.mappings m).addr_ (s.mappings m).length_

theorem Ranges.hasMapping (h : s.Ranges l) :
    s.HasMapping a n ↔ ∃ m ∈ l, (s.mappings m).addr_ = a ∧ (s.mappings m).length_ = n := by
  constructor
  · rintro ⟨l', hl', hm⟩
    obtain rfl := h.listed.records.unique hl'
    exact hm
  · exact fun hm => ⟨l, h.listed.records, hm⟩

/-- **The search** reports a conflict if some mapping overlaps the range. -/
theorem Ranges.reportsConflict_iff (h : s.Ranges l) (addr length : Word) :
    s.ReportsConflict addr length ↔ ∃ m ∈ l, s.Overlaps addr length m := by
  have hfind := h.listed.records.findMapping addr length
  constructor
  · rintro ⟨m, hm⟩
    have hsome := List.find?_eq_some_iff_append.mp (hfind.unique hm)
    exact ⟨m, List.mem_of_find?_eq_some (hfind.unique hm), of_decide_eq_true hsome.1⟩
  · rintro ⟨m, hm, hover⟩
    obtain ⟨m', hm'⟩ := Option.isSome_iff_exists.mp
      (List.find?_isSome.mpr ⟨m, hm, decide_eq_true hover⟩ :
        (l.find? fun m => decide (s.Overlaps addr length m)).isSome)
    exact ⟨m', hm' ▸ hfind⟩

/-- **In every run** the mappings that are recorded are ranges. -/
theorem callReachable_ranges (hs : CallReachable s) : ∃ l, s.Ranges l := by
  suffices h : (∃ level, Tables s level) ∧ ∃ l, s.Ranges l from h.2
  refine Reach.invariant (fun s => (∃ level, Tables s level) ∧ ∃ l, s.Ranges l) hs (fun s h => ?_) ?_
  · exact ⟨h.tables, [], h.agree.listed, by simp⟩
  · rintro s s' ⟨⟨level, ht⟩, l, hl⟩ hstep
    cases hstep with
    | map hrun =>
      have hm := mapMemory_eq_done hrun
      obtain ⟨s₁, hsame, hrec, hloop⟩ := hm.run
      obtain ⟨-, -, hr⟩ := (ht.congr hsame).mapLoop hloop
      obtain ⟨l', hadded⟩ := hl.listed.added hrec hr
      refine ⟨(hm.tables ht).1, l', hadded.listed, fun m hmem => ?_⟩
      rcases (hadded.mem m).mp hmem with rfl | hmem
      · rw [hadded.self]
        exact ⟨hm.length_ne, hm.no_wrap⟩
      · rw [hadded.old m hmem]
        exact hl.isRange m hmem
    | unmap hrun =>
      obtain ⟨m, hremoved⟩ := hl.listed.removed ht hrun
      refine ⟨⟨level, unmapMemory_tables ht hrun⟩, l.erase m, hremoved.listed, fun n hn => ?_⟩
      rw [hremoved.mappings]
      exact hl.isRange n (List.mem_of_mem_erase hn)
    | elsewhere he =>
      refine ⟨⟨level, ht.elsewhere he⟩, l, ?_, ?_⟩
      · have hlisted := hl.listed
        rw [he.eq]
        exact ⟨hlisted.records, hlisted.ordered, hlisted.constructed⟩
      · rw [he.eq]
        exact hl.isRange

/-- A mapping that is recorded is a range. -/
theorem HasMapping.isRange (hm : s.HasMapping a n) (hs : CallReachable s) : IsRange a n := by
  obtain ⟨l, hl⟩ := callReachable_ranges hs
  obtain ⟨m, hmem, rfl, rfl⟩ := hl.hasMapping.mp hm
  exact hl.isRange m hmem

/-- A conflict is reported if there is a common address and the mapping is close, or neither. -/
theorem reportsConflict_iff (hs : CallReachable s) (h : IsRange addr length) :
    s.ReportsConflict addr length ↔
      ∃ a n, s.HasMapping a n ∧ (Meet addr length a n ↔ Close addr length a n) := by
  obtain ⟨l, hl⟩ := callReachable_ranges hs
  rw [hl.reportsConflict_iff]
  constructor
  · rintro ⟨m, hmem, hover⟩
    exact ⟨_, _, hl.hasMapping.mpr ⟨m, hmem, rfl, rfl⟩,
      (memoryAreasOverlap_iff_meet h (hl.isRange m hmem)).mp hover⟩
  · rintro ⟨a, n, hm, hiff⟩
    obtain ⟨m, hmem, rfl, rfl⟩ := hl.hasMapping.mp hm
    exact ⟨m, hmem, (memoryAreasOverlap_iff_meet h (hl.isRange m hmem)).mpr hiff⟩

/-- **When the test is right.** For two ranges, it says whether they have a common address, and does
not depend on their order, exactly if they are close. In every run, the search for a conflict with a
range is right exactly if a mapping has a common part with it that is close enough, or no mapping has
a common part with it or is too far from it. -/
theorem memoryAreasOverlap_exact_iff (hs : CallReachable s) (h₁ : IsRange start₁ len₁)
    (h₂ : IsRange start₂ len₂) :
    ((MemoryAreasOverlap start₁ len₁ start₂ len₂ ↔ Meet start₁ len₁ start₂ len₂) ∧
        (MemoryAreasOverlap start₁ len₁ start₂ len₂ ↔ MemoryAreasOverlap start₂ len₂ start₁ len₁) ↔
      Close start₁ len₁ start₂ len₂) ∧
    ((s.ReportsConflict start₁ len₁ ↔ ∃ a n, s.HasMapping a n ∧ Meet start₁ len₁ a n) ↔
      (∃ a n, s.HasMapping a n ∧ Meet start₁ len₁ a n ∧ Close start₁ len₁ a n) ∨
        ∀ a n, s.HasMapping a n → ¬ Meet start₁ len₁ a n ∧ Close start₁ len₁ a n) := by
  constructor
  · rw [and_iff_left memoryAreasOverlap_comm, memoryAreasOverlap_iff_meet h₁ h₂]
    by_cases hmeet : Meet start₁ len₁ start₂ len₂
    · simp only [hmeet, true_iff, iff_true]
    · simp only [hmeet, false_iff, iff_false, not_not]
  rw [reportsConflict_iff hs h₁]
  constructor
  · intro hright
    by_cases hmeet : ∃ a n, s.HasMapping a n ∧ Meet start₁ len₁ a n
    · -- a mapping without a common address that is reported would be too far from this one
      obtain ⟨b, k, hm', hiff⟩ := hright.mpr hmeet
      obtain ⟨a, n, hm, hmeet⟩ := hmeet
      by_cases hclose : Close start₁ len₁ a n
      · exact .inl ⟨a, n, hm, hmeet, hclose⟩
      · have hmeet' : Meet start₁ len₁ b k := by
          by_contra hapart
          exact hapart (hiff.mpr (hmeet.close hclose h₁ (hm'.isRange hs) hapart))
        exact .inl ⟨b, k, hm', hmeet', hiff.mp hmeet'⟩
    · refine .inr fun a n hm => ?_
      have hapart : ¬ Meet start₁ len₁ a n := fun h => hmeet ⟨a, n, hm, h⟩
      refine ⟨hapart, ?_⟩
      by_contra hfar
      exact hmeet (hright.mp ⟨a, n, hm, iff_of_false hapart hfar⟩)
  · rintro (⟨a, n, hm, hmeet, hclose⟩ | hnone)
    · exact iff_of_true ⟨a, n, hm, iff_of_true hmeet hclose⟩ ⟨a, n, hm, hmeet⟩
    · refine iff_of_false ?_ ?_
      · rintro ⟨a, n, hm, hiff⟩
        obtain ⟨hapart, hclose⟩ := hnone a n hm
        exact hapart (hiff.mpr hclose)
      · rintro ⟨a, n, hm, hmeet⟩
        exact (hnone a n hm).1 hmeet

/-- A page in the lower half and one in the upper half are ranges. -/
theorem isRange_pages : IsRange 0x400000 0x1000 ∧ IsRange 0xFFFF800000000000 0x1000 :=
  ⟨⟨by decide, by decide⟩, by decide, by decide⟩

/-- They have no common address, and are too far from each other. -/
theorem not_close_pages : ¬ Meet 0x400000 0x1000 0xFFFF800000000000 0x1000 ∧
    ¬ Close 0x400000 0x1000 0xFFFF800000000000 0x1000 := by
  refine ⟨?_, fun h => ?_⟩
  · rw [meet_iff]
    decide
  · exact absurd h.gap_le (by decide)

/-- The one in the upper half is mapped, and nothing else. -/
theorem exists_upper_page : ∃ s, CallReachable s ∧
    ∀ a n, s.HasMapping a n ↔ a = 0xFFFF800000000000 ∧ n = 0x1000 := by
  obtain ⟨s, hmap⟩ : ∃ s, fresh.mapMemory 10 0xFFFF800000000000 0x1000 MemoryType.read 0x8000 =
      .done (0xFFFF800000000000, s) := ⟨_, rfl⟩
  have hnone : ∀ a n, ¬ fresh.HasMapping a n := by
    rintro a n ⟨l, hl, m, hm, -⟩
    obtain rfl := fresh_init.agree.records.unique hl
    exact List.not_mem_nil hm
  refine ⟨s, .step (.start fresh_init) (.map hmap), fun a n => ?_⟩
  rw [(hasMapping_of_map (a := a) (n := n) (.start fresh_init) hmap (by decide)).1]
  exact or_iff_left (hnone a n)

/-- The two pages from the one in the upper half on are close to it. -/
theorem close_pages : IsRange 0xFFFF800000000000 0x2000 ∧
    Meet 0xFFFF800000000000 0x2000 0xFFFF800000000000 0x1000 ∧
    Close 0xFFFF800000000000 0x2000 0xFFFF800000000000 0x1000 :=
  ⟨⟨by decide, by decide⟩, meet_iff.mpr (by decide), by decide, by decide⟩

/-- The answer is right for two pages of which one is mapped, and wrong for the one in the lower half. -/
theorem memoryAreasOverlap_exact_iff_pages : ∃ s : MemoryManager,
    (MemoryAreasOverlap 0xFFFF800000000000 0x2000 0xFFFF800000000000 0x1000 ↔
      Meet 0xFFFF800000000000 0x2000 0xFFFF800000000000 0x1000) ∧
    (s.ReportsConflict 0xFFFF800000000000 0x2000 ↔ ∃ a n, s.HasMapping a n ∧ Meet 0xFFFF800000000000 0x2000 a n) ∧
    ¬ (s.ReportsConflict 0x400000 0x1000 ↔ ∃ a n, s.HasMapping a n ∧ Meet 0x400000 0x1000 a n) := by
  obtain ⟨hlower, hupper⟩ := isRange_pages
  obtain ⟨hapart, hfar⟩ := not_close_pages
  obtain ⟨htwo, hmeet, hclose⟩ := close_pages
  obtain ⟨s, hs, hmappings⟩ := exists_upper_page
  have hmapped : s.HasMapping 0xFFFF800000000000 0x1000 := (hmappings _ _).mpr ⟨rfl, rfl⟩
  obtain ⟨hoverlap, hreports⟩ := memoryAreasOverlap_exact_iff hs htwo hupper
  obtain ⟨-, hreports'⟩ := memoryAreasOverlap_exact_iff hs hlower hupper
  refine ⟨s, (hoverlap.mpr hclose).1, hreports.mpr (.inl ⟨_, _, hmapped, hmeet, hclose⟩), fun h => ?_⟩
  obtain ⟨a, n, hm, hmeet', -⟩ | hall := hreports'.mp h
  · obtain ⟨rfl, rfl⟩ := (hmappings a n).mp hm
    exact hapart hmeet'
  · exact hfar (hall _ _ hmapped).2

/-- **The pages overlap**, and a request for the one in the lower half is reported as a conflict. -/
theorem not_memoryAreasOverlap_exact :
    (¬ ∀ start₁ len₁ start₂ len₂, IsRange start₁ len₁ → IsRange start₂ len₂ →
      (MemoryAreasOverlap start₁ len₁ start₂ len₂ ↔ Meet start₁ len₁ start₂ len₂)) ∧
    ¬ ∀ s addr length, CallReachable s → IsRange addr length →
      (s.ReportsConflict addr length ↔ ∃ a n, s.HasMapping a n ∧ Meet addr length a n) := by
  obtain ⟨hlower, hupper⟩ := isRange_pages
  obtain ⟨hapart, hfar⟩ := not_close_pages
  constructor
  · intro h
    have hover := (memoryAreasOverlap_iff_meet hlower hupper).mpr (iff_of_false hapart hfar)
    exact hapart ((h _ _ _ _ hlower hupper).mp hover)
  · intro h
    obtain ⟨s, hs, hmappings⟩ := exists_upper_page
    have hreported : s.ReportsConflict 0x400000 0x1000 :=
      (reportsConflict_iff hs hlower).mpr ⟨_, _, (hmappings _ _).mpr ⟨rfl, rfl⟩, iff_of_false hapart hfar⟩
    obtain ⟨a, n, hm, hmeet⟩ := (h s _ _ hs hlower).mp hreported
    obtain ⟨rfl, rfl⟩ := (hmappings a n).mp hm
    exact hapart hmeet

end MemoryManager

end Attos
