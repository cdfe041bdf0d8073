import Attos.Pe.Unwind

/-!
# The function of an instruction

The range of a function in the exception directory does not contain its end, where the next
function may begin. `runtime_function_info` takes the end to it: so the function of an instruction
is found exactly if every entry that ends at the instruction stands behind that function
(`runtimeFunctionInfo_eq_iff`). In a sorted directory this is only possible for empty ranges
(`endsBehind_iff`), and at the first instruction of a function that is placed behind another one
the other one is found (`not_runtimeFunctionInfo_owner`).
-/

namespace Attos.Pe

open Lib

/-- The range of a function contains the RVA. -/
def RuntimeFunction.Contains (rf : RuntimeFunction) (rva : UInt32) : Prop :=
  rf.beginAddress ≤ rva ∧ rva < rf.endAddress

instance {rf : RuntimeFunction} {rva : UInt32} : Decidable (rf.Contains rva) :=
  inferInstanceAs (Decidable (rf.beginAddress ≤ rva ∧ rva < rf.endAddress))

/-- An exception directory as the linker writes it. -/
structure Directory (rfs : List RuntimeFunction) : Prop where
  /-- it is sorted -/
  sorted : rfs.Pairwise fun rf rf' => rf.beginAddress ≤ rf'.beginAddress
  /-- no two ranges have an RVA in common -/
  disjoint : rfs.Pairwise fun rf rf' => ∀ rva, rf.Contains rva → ¬ rf'.Contains rva

/-- The entry whose range contains the RVA, or that there is none. -/
def Owner (rfs : List RuntimeFunction) (rva : UInt32) : Option RuntimeFunction → Prop
  | some rf => rf ∈ rfs ∧ rf.Contains rva
  | none => ∀ rf ∈ rfs, ¬ rf.Contains rva

/-- What `unwind_once` does with the entry that it found. -/
def unwindFound (fuel : ℕ) (mem : Memory) (image : Image) (context : UnwindContext) :
    Option RuntimeFunction → Outcome UnwindContext
  | none => .done (context.ret mem)
  | some rf => do
    let ui := image.unwindInfo rf.unwindInfoAddress
    Outcome.require (ui.version = unwindInfoVersion)
    Outcome.require (ui.flags &&& unwindInfoFlagChaininfo = 0)
    Outcome.require (ui.frameRegister ≠ 0 ∨ ui.frameOffset = 0)
    unwindLoop mem ui ((context.rip - image.base).toUInt32 - rf.beginAddress).toNat fuel 0 context

/-- Every entry that ends at the RVA stands behind one that contains it. -/
def EndsBehind (rfs : List RuntimeFunction) (rva : UInt32) : Prop :=
  ∀ i (hi : i < rfs.length), rfs[i].beginAddress ≤ rva → rfs[i].endAddress = rva →
    ∃ j, ∃ hj : j < i, rfs[j].Contains rva

/-- No function ends at the RVA, but for empty ones behind the function that contains it. -/
structure NoEnd (rfs : List RuntimeFunction) (rva : UInt32) : Prop where
  /-- no function ends there -/
  ends : ∀ rf ∈ rfs, rf.beginAddress < rf.endAddress → rf.endAddress ≠ rva
  /-- an empty one stands behind the function that contains the RVA -/
  empty : ∀ i (hi : i < rfs.length), rfs[i].beginAddress = rva → rfs[i].endAddress = rva →
    ∃ j, ∃ hj : j < i, rfs[j].Contains rva

section Lookup

variable {rfs : List RuntimeFunction} {rva : UInt32} {rf rf' : RuntimeFunction} {owner : Option RuntimeFunction}
  {fuel : ℕ} {mem : Memory} {image : Image} {context : UnwindContext}

theorem unwindOnce_eq : unwindOnce fuel mem image context = unwindFound fuel mem image context
    (runtimeFunctionInfo image.functions (context.rip - image.base).toUInt32) := by
  rw [unwindOnce]
  cases runtimeFunctionInfo image.functions (context.rip - image.base).toUInt32 with
  | none => rfl
  | some rf => rfl

theorem RuntimeFunction.Contains.le (h : rf.Contains rva) : rva ≤ rf.endAddress := UInt32.le_of_lt h.2

/-- An RVA up to the end of a function is in its range or is the end. -/
theorem RuntimeFunction.contains_or_end (hbegin : rf.beginAddress ≤ rva) (hend : rva ≤ rf.endAddress) :
    rf.Contains rva ∨ rf.endAddress = rva := by
  rcases UInt32.lt_or_eq_of_le hend with hlt | heq
  · exact .inl ⟨hbegin, hlt⟩
  · exact .inr heq.symm

/-- Every RVA has an owner, or none. -/
theorem exists_owner (rfs : List RuntimeFunction) (rva : UInt32) : ∃ owner, Owner rfs rva owner := by
  by_cases h : ∃ rf ∈ rfs, rf.Contains rva
  · obtain ⟨rf, hmem, hcontains⟩ := h
    exact ⟨some rf, hmem, hcontains⟩
  · exact ⟨none, fun rf hmem hcontains => h ⟨rf, hmem, hcontains⟩⟩

/-- At most one entry contains an RVA. -/
theorem Directory.contains_unique (h : Directory rfs) (hmem : rf ∈ rfs) (hmem' : rf' ∈ rfs)
    (hcontains : rf.Contains rva) (hcontains' : rf'.Contains rva) : rf = rf' := by
  obtain ⟨i, hi, rfl⟩ := List.getElem_of_mem hmem
  obtain ⟨j, hj, rfl⟩ := List.getElem_of_mem hmem'
  have hdisjoint := List.pairwise_iff_getElem.mp h.disjoint
  rcases Nat.lt_trichotomy i j with hlt | heq | hlt
  · exact absurd hcontains' (hdisjoint i j hi hj hlt rva hcontains)
  · exact getElem_congr_idx heq
  · exact absurd hcontains (hdisjoint j i hj hi hlt rva hcontains')

/-- What is found is the first entry up to whose end the RVA is. -/
theorem runtimeFunctionInfo_eq_some : runtimeFunctionInfo rfs rva = some rf ↔
    (rf.beginAddress ≤ rva ∧ rva ≤ rf.endAddress) ∧ ∃ i, ∃ hi : i < rfs.length, rfs[i] = rf ∧
      ∀ j (hj : j < i), ¬ (rfs[j].beginAddress ≤ rva ∧ rva ≤ rfs[j].endAddress) := by
  rw [runtimeFunctionInfo, List.find?_eq_some_iff_getElem]
  simp only [decide_eq_true_eq, Bool.not_eq_true', decide_eq_false_iff_not]

theorem runtimeFunctionInfo_eq_none : runtimeFunctionInfo rfs rva = none ↔
    ∀ rf ∈ rfs, ¬ (rf.beginAddress ≤ rva ∧ rva ≤ rf.endAddress) := by
  rw [runtimeFunctionInfo, List.find?_eq_none]
  simp only [decide_eq_true_eq]

/-- **The lookup**: the owner of the RVA is found exactly if every entry that ends there stands
behind it. -/
theorem runtimeFunctionInfo_eq_iff (h : Directory rfs) (howner : Owner rfs rva owner) :
    runtimeFunctionInfo rfs rva = owner ↔ EndsBehind rfs rva := by
  constructor
  · intro hfound i hi hbegin hend
    cases owner with
    | none =>
      have hnone := runtimeFunctionInfo_eq_none.mp hfound rfs[i] (List.getElem_mem hi)
      exact absurd (And.intro hbegin (UInt32.le_of_eq hend.symm)) hnone
    | some rf =>
      obtain ⟨-, j, hj, rfl, hfirst⟩ := runtimeFunctionInfo_eq_some.mp hfound
      rcases Nat.lt_trichotomy i j with hlt | rfl | hlt
      · exact absurd (And.intro hbegin (UInt32.le_of_eq hend.symm)) (hfirst i hlt)
      · exact absurd (hend ▸ howner.2.2) (UInt32.lt_irrefl _)
      · exact ⟨j, hlt, howner.2⟩
  · intro hbehind
    cases owner with
    | none =>
      apply runtimeFunctionInfo_eq_none.mpr
      intro rf hmem hrange
      rcases RuntimeFunction.contains_or_end hrange.1 hrange.2 with hcontains | hend
      · exact howner rf hmem hcontains
      · obtain ⟨i, hi, rfl⟩ := List.getElem_of_mem hmem
        obtain ⟨j, hj, hcontains⟩ := hbehind i hi hrange.1 hend
        exact howner _ (List.getElem_mem _) hcontains
    | some rf =>
      obtain ⟨hmem, hcontains⟩ := howner
      obtain ⟨found, hfound⟩ := exists_runtimeFunctionInfo hmem ⟨hcontains.1, hcontains.le⟩
      obtain ⟨hrange, i, hi, rfl, hfirst⟩ := runtimeFunctionInfo_eq_some.mp hfound
      rcases RuntimeFunction.contains_or_end hrange.1 hrange.2 with hcontains' | hend
      · rw [hfound, h.contains_unique (List.getElem_mem hi) hmem hcontains' hcontains]
      · obtain ⟨j, hj, hcontains'⟩ := hbehind i hi hrange.1 hend
        exact absurd (And.intro hcontains'.1 hcontains'.le) (hfirst j hj)

/-- In a sorted directory, a function that is not empty does not stand behind the one that begins
at its end. -/
theorem endsBehind_iff (h : Directory rfs) : EndsBehind rfs rva ↔ NoEnd rfs rva := by
  constructor
  · intro hbehind
    refine ⟨?_, fun i hi hbegin hend => hbehind i hi (UInt32.le_of_eq hbegin) hend⟩
    intro rf hmem hrange hend
    obtain ⟨i, hi, rfl⟩ := List.getElem_of_mem hmem
    have hbegin : rfs[i].beginAddress < rva := hend ▸ hrange
    obtain ⟨j, hj, hcontains⟩ := hbehind i hi (UInt32.le_of_lt hbegin) hend
    have hsorted := List.pairwise_iff_getElem.mp h.sorted j i (hj.trans hi) hi hj
    have hcommon : rfs[j].Contains rfs[i].beginAddress :=
      ⟨hsorted, UInt32.lt_trans hbegin hcontains.2⟩
    exact List.pairwise_iff_getElem.mp h.disjoint j i (hj.trans hi) hi hj _ hcommon ⟨UInt32.le_refl _, hrange⟩
  · intro hno i hi hbegin hend
    rcases UInt32.lt_or_eq_of_le hbegin with hlt | heq
    · exact absurd hend (hno.ends rfs[i] (List.getElem_mem hi) (hend ▸ hlt))
    · exact hno.empty i hi heq hend

/-- **The function of an instruction** is found, and its codes are interpreted, exactly if no
function ends there, but for empty ones behind it. -/
theorem runtimeFunctionInfo_owner_iff (h : Directory rfs) (rva : UInt32) :
    (∀ owner, Owner rfs rva owner → runtimeFunctionInfo rfs rva = owner ∧
      ∀ fuel mem image context, image.functions = rfs → (context.rip - image.base).toUInt32 = rva →
        unwindOnce fuel mem image context = unwindFound fuel mem image context owner) ↔ NoEnd rfs rva := by
  rw [← endsBehind_iff h]
  constructor
  · intro hfound
    obtain ⟨owner, howner⟩ := exists_owner rfs rva
    exact (runtimeFunctionInfo_eq_iff h howner).mp (hfound owner howner).1
  · intro hbehind owner howner
    have hfound := (runtimeFunctionInfo_eq_iff h howner).mpr hbehind
    refine ⟨hfound, ?_⟩
    rintro fuel mem image context rfl rfl
    rw [unwindOnce_eq, hfound]

end Lookup

theorem directory_twoFunctions : Directory twoFunctions.functions where
  sorted := by decide
  disjoint := by
    apply List.pairwise_pair.mpr
    intro rva hfirst hsecond
    exact UInt32.lt_irrefl _ (UInt32.lt_of_lt_of_le hfirst.2 hsecond.1)

theorem noEnd_twoFunctions : NoEnd twoFunctions.functions 0x1005 where
  ends := by decide
  empty i hi hbegin := by
    have hnone : ∀ rf ∈ twoFunctions.functions, rf.beginAddress ≠ 0x1005 := by decide
    exact absurd hbegin (hnone _ (List.getElem_mem hi))

/-- The first function is found for an instruction in it. -/
theorem runtimeFunctionInfo_owner_first :
    runtimeFunctionInfo twoFunctions.functions 0x1005 = some firstFunction :=
  ((runtimeFunctionInfo_owner_iff directory_twoFunctions 0x1005).mpr noEnd_twoFunctions (some firstFunction)
    ⟨List.mem_cons_self, by decide⟩).1

/-- The first instruction of the second function is taken to the first one. -/
theorem not_runtimeFunctionInfo_owner : ¬ ∀ rfs, Directory rfs → ∀ rva owner, Owner rfs rva owner →
    runtimeFunctionInfo rfs rva = owner := by
  intro h
  have howner : Owner twoFunctions.functions 0x1010 (some secondFunction) := ⟨by decide, by decide⟩
  have hfound := h _ directory_twoFunctions 0x1010 _ howner
  exact absurd hfound (by decide)

end Attos.Pe
