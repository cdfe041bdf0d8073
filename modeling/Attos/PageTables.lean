import Attos.MemoryManager

/-!
# The page tables as radix tables

The page tables of a manager are radix tables of four levels: a table of level
4 has pointers only, one of level 3 or 2 has pointers and large pages, and one
of level 1 has pages only (`kind`). Translating an address is looking up the
path of its four indices (`virtToPhys_eq`).

The tables of a manager form a forest of pages that `alloc_physical` has handed
out to it (`Tables`). Mapping a page keeps this, and changes the lookups of the
addresses in the page and of no others (`Tables.mapPage`); the loop over the
pages of a mapping maps the whole range (`Tables.mapLoop_mapsTo`), and the loop
over those of an unmapped mapping clears it (`Tables.unmapLoop_of_mapped`).
-/

namespace Attos

open Lib RadixTable

/-! ## Bits -/

/-- The bits of a base address are what is left of an entry without its flags. -/
theorem or_and_not {p f m : Word} (hp : p &&& m = 0) (hf : f &&& ~~~m = 0) :
    (p ||| f) &&& ~~~m = p := by
  apply BitVec.eq_of_getLsbD_eq
  intro i hi
  have hpi := congrArg (fun w : Word => w.getLsbD i) hp
  have hfi := congrArg (fun w : Word => w.getLsbD i) hf
  simp only [BitVec.getLsbD_and, BitVec.getLsbD_not, hi, decide_true, Bool.true_and,
    BitVec.ofNat_eq_ofNat, BitVec.getLsbD_zero] at hpi hfi
  simp only [BitVec.getLsbD_and, BitVec.getLsbD_or, BitVec.getLsbD_not, hi, decide_true,
    Bool.true_and]
  cases hb : p.getLsbD i <;> cases hm : m.getLsbD i <;> simp_all

/-- An address keeps its bits outside a mask if it has none in it. -/
theorem and_not_eq_self {p m : Word} : p &&& ~~~m = p ↔ p &&& m = 0 := by
  constructor
  · intro h
    rw [← h, BitVec.and_assoc]
    simp [BitVec.and_comm]
  · intro h
    simpa using or_and_not h (by simp : (0 : Word) &&& ~~~m = 0)

/-- Flags in a mask that the address has no bits in. -/
theorem or_and_of_and_eq_zero {p f m k : Word} (hp : p &&& m = 0) (hk : k &&& m = k) :
    (p ||| f) &&& k = f &&& k := by
  have hpk : p &&& k = 0 := by
    rw [← hk, BitVec.and_comm k m, ← BitVec.and_assoc, hp]
    simp
  rw [BitVec.and_or_distrib_right, hpk]
  exact BitVec.zero_or

/-- Flags stay set. -/
theorem and_or_ne_zero {p f k : Word} (h : f &&& k ≠ 0) : (p ||| f) &&& k ≠ 0 := by
  rw [BitVec.and_or_distrib_right]
  exact fun h₀ => h (BitVec.or_eq_zero_iff.mp h₀).2

/-- The top bit of a small address is clear. -/
theorem and_nx_eq_zero {p : Word} (hp : p.toNat < 2 ^ 63) : p &&& PageFlag.nx = 0 := by
  have hnx : PageFlag.nx = BitVec.twoPow 64 63 := by decide
  have htop : p.getLsbD 63 = false := by
    rw [BitVec.getLsbD]
    exact Nat.testBit_lt_two_pow hp
  rw [hnx]
  apply BitVec.eq_of_getLsbD_eq
  intro i _
  simp only [BitVec.getLsbD_and, BitVec.getLsbD_twoPow, BitVec.ofNat_eq_ofNat, BitVec.getLsbD_zero]
  grind

/-- A page-aligned address whose top bit is clear: what `table_entry` leaves
alone. -/
def IsPage (p : Word) : Prop := tableEntry p = p

instance (p : Word) : Decidable (IsPage p) := inferInstanceAs (Decidable (_ = _))

theorem isPage_iff {p : Word} : IsPage p ↔ p &&& (PageFlag.nx ||| 0xfff) = 0 := and_not_eq_self

variable {p f : Word}

/-- The table that an entry made of a page and flags points to. -/
theorem IsPage.tableEntry_or (hp : IsPage p) (hf : f &&& ~~~(PageFlag.nx ||| 0xfff) = 0) :
    tableEntry (p ||| f) = p := or_and_not (isPage_iff.mp hp) hf

theorem IsPage.present_or (hp : IsPage p) : Present (p ||| f) ↔ Present f := by
  unfold Present
  rw [or_and_of_and_eq_zero (isPage_iff.mp hp) (by decide)]

theorem IsPage.large_or (hp : IsPage p) : Large (p ||| f) ↔ Large f := by
  unfold Large
  rw [or_and_of_and_eq_zero (isPage_iff.mp hp) (by decide)]

namespace MemoryManager

/-! ## Entries -/

/-- What a word says in a table of each level. -/
def kind (n : ℕ) (w : Word) : Entry Word :=
  if ¬ Present w then .absent
  else if n = 4 ∨ (n = 2 ∨ n = 3) ∧ ¬ Large w then .table (tableEntry w)
  else .leaf

/-- The four indices of an address. -/
def indices (virt : Word) : List ℕ := [pml4e virt, pdpe virt, pde virt, pte virt]

/-- The address that the result of a lookup stands for. -/
def translation (virt : Word) : Option (ℕ × Word) → Outcome Word
  | some (3, w) => .done (leafAddress w virt 0x40000000)
  | some (2, w) => .done (leafAddress w virt 0x200000)
  | some (1, w) => .done (leafAddress w virt 0x1000)
  | _ => .abort

/-- **`virt_to_phys` looks up the path of the four indices.** -/
theorem virtToPhys_eq (mem : PhysicalMemory) (pml4 virt : Word) :
    virtToPhys mem pml4 virt =
      translation virt (lookup kind mem 4 (tableEntry pml4) (indices virt)) := by
  rw [virtToPhys, indices]
  by_cases h₄ : Present (mem (tableEntry pml4) (pml4e virt))
  · simp only [lookup, kind, h₄, not_true_eq_false, if_false, true_or, if_true]
    generalize tableEntry (mem (tableEntry pml4) (pml4e virt)) = pdp
    by_cases h₃ : Present (mem pdp (pdpe virt))
    · by_cases l₃ : Large (mem pdp (pdpe virt))
      · simp [h₃, l₃, translation]
      · simp only [h₃, l₃, if_false, not_true_eq_false, not_false_eq_true, and_true, or_true,
          if_true]
        generalize tableEntry (mem pdp (pdpe virt)) = pd
        by_cases h₂ : Present (mem pd (pde virt))
        · by_cases l₂ : Large (mem pd (pde virt))
          · simp [h₂, l₂, translation]
          · simp only [h₂, l₂, if_false, not_true_eq_false, not_false_eq_true, and_true, or_true,
              if_true]
            generalize tableEntry (mem pd (pde virt)) = pt
            by_cases h₁ : Present (mem pt (pte virt)) <;> simp [h₁, translation]
        · simp [h₂, translation]
    · simp [h₃, translation]
  · simp [h₄, lookup, kind, translation]

theorem kind_zero (n : ℕ) : kind n 0 = .absent := by
  rw [kind, if_pos (by decide)]

theorem kind_zero_ne_table (n : ℕ) (q : Word) : kind n 0 ≠ .table q := by
  rw [kind_zero]
  exact fun h => nomatch h

/-- The flags of an entry for a table. -/
def entryFlags (type : MemoryType) : Word := tableFlags type ||| PageFlag.write

theorem entryFlags_spec (type : MemoryType) : Present (entryFlags type) ∧ ¬ Large (entryFlags type) ∧
    entryFlags type &&& ~~~(PageFlag.nx ||| 0xfff) = 0 := by
  rw [entryFlags, tableFlags]
  split_ifs <;> decide

theorem pageFlags_spec (type : MemoryType) : Present (pageFlags type) ∧
    pageFlags type &&& ~~~(PageFlag.nx ||| 0xfff) = 0 := by
  rw [pageFlags, tableFlags]
  split_ifs <;> decide

/-- A new table is pointed to by its entry. -/
theorem kind_table {n : ℕ} (hn : n = 4 ∨ n = 2 ∨ n = 3) (hp : IsPage p) (type : MemoryType) :
    kind n (p ||| entryFlags type) = .table p := by
  obtain ⟨hpresent, hlarge, hflags⟩ := entryFlags_spec type
  rw [kind]
  rw [if_neg (by simpa [hp.present_or] using hpresent), if_pos, hp.tableEntry_or hflags]
  rw [hp.large_or]
  tauto

/-- An entry with the flags of a table is a pointer. -/
theorem kind_of_check {n : ℕ} {w : Word} (hn : n = 4 ∨ n = 2 ∨ n = 3) (hw : Present w)
    {type : MemoryType} (hcheck : w &&& checkMask = entryFlags type &&& checkMask) :
    kind n w = .table (tableEntry w) := by
  have hlarge : ¬ Large w := by
    have hsub : PageFlag.pagesize &&& checkMask = PageFlag.pagesize := by decide
    rw [Large]
    rw [← hsub, BitVec.and_comm PageFlag.pagesize checkMask, ← BitVec.and_assoc, hcheck,
      BitVec.and_assoc, BitVec.and_comm checkMask PageFlag.pagesize, hsub]
    exact (entryFlags_spec type).2.1
  rw [kind]
  rw [if_neg (not_not.mpr hw), if_pos]
  tauto

/-! ## Pages -/

/-- The level of the tables whose entries map pages of a type. -/
def leafLevel (type : MemoryType) : ℕ :=
  if type.Has MemoryType.ps1gb then 3 else if type.Has MemoryType.ps2mb then 2 else 1

theorem leafLevel_cases (type : MemoryType) :
    leafLevel type = 3 ∧ type.Has MemoryType.ps1gb ∧ type.pageSize = 0x40000000 ∨
    leafLevel type = 2 ∧ ¬ type.Has MemoryType.ps1gb ∧ type.Has MemoryType.ps2mb ∧
      type.pageSize = 0x200000 ∨
    leafLevel type = 1 ∧ ¬ type.Has MemoryType.ps1gb ∧ ¬ type.Has MemoryType.ps2mb ∧
      type.pageSize = 0x1000 := by
  rw [leafLevel, MemoryType.pageSize]
  by_cases h₁ : type.Has MemoryType.ps1gb
  · simp [h₁]
  · by_cases h₂ : type.Has MemoryType.ps2mb <;> simp [h₁, h₂]

theorem pageSize_toNat (type : MemoryType) : type.pageSize.toNat = 2 ^ 30 ∨
    type.pageSize.toNat = 2 ^ 21 ∨ type.pageSize.toNat = 2 ^ 12 := by
  rcases leafLevel_cases type with ⟨-, -, hps⟩ | ⟨-, -, -, hps⟩ | ⟨-, -, -, hps⟩ <;> simp [hps]

/-- The bits below a page are the remainder. -/
theorem toNat_and_pageSize (w : Word) (type : MemoryType) :
    (w &&& (type.pageSize - 1)).toNat = w.toNat % type.pageSize.toNat := by
  have hmod : ∀ k, k < 64 → (w &&& BitVec.ofNat 64 (2 ^ k - 1)).toNat = w.toNat % 2 ^ k := by
    intro k hk
    have hlt : 2 ^ k < 2 ^ 64 := Nat.pow_lt_pow_right (by omega) hk
    rw [BitVec.toNat_and, BitVec.toNat_ofNat, Nat.mod_eq_of_lt (by omega),
      Nat.and_two_pow_sub_one_eq_mod]
  rcases leafLevel_cases type with ⟨-, -, hps⟩ | ⟨-, -, -, hps⟩ | ⟨-, -, -, hps⟩
  · rw [hps]
    exact hmod 30 (by omega)
  · rw [hps]
    exact hmod 21 (by omega)
  · rw [hps]
    exact hmod 12 (by omega)

/-- Alignment to a page, as a remainder. -/
theorem and_pageSize_eq_zero {w : Word} {type : MemoryType} :
    w &&& (type.pageSize - 1) = 0 ↔ w.toNat % type.pageSize.toNat = 0 := by
  rw [← toNat_and_pageSize, ← BitVec.toNat_inj]
  rfl

/-- The virtual addresses of the upper and of the lower half. -/
def Canonical (virt : Word) : Prop := virt.toNat < 2 ^ 47 ∨ 2 ^ 64 - 2 ^ 47 ≤ virt.toNat

/-- A range inside one half. -/
def InHalf (virt length : Word) : Prop :=
  virt.toNat + length.toNat ≤ 2 ^ 47 ∨
    2 ^ 64 - 2 ^ 47 ≤ virt.toNat ∧ virt.toNat + length.toNat ≤ 2 ^ 64

/-- `v` lies in `[virt, virt + length)`. -/
def InRange (virt length v : Word) : Prop :=
  virt.toNat ≤ v.toNat ∧ v.toNat < virt.toNat + length.toNat

instance (virt : Word) : Decidable (Canonical virt) := inferInstanceAs (Decidable (_ ∨ _))

instance (virt length : Word) : Decidable (InHalf virt length) :=
  inferInstanceAs (Decidable (_ ∨ _))

instance (virt length v : Word) : Decidable (InRange virt length v) :=
  inferInstanceAs (Decidable (_ ∧ _))

theorem InHalf.canonical {virt length v : Word} (h : InHalf virt length)
    (hv : InRange virt length v) : Canonical v := by
  rw [InHalf] at h
  rw [InRange] at hv
  rw [Canonical]
  omega

theorem pml4e_eq (virt : Word) : pml4e virt = virt.toNat / 2 ^ 39 % 2 ^ 9 := by
  simp only [pml4e, BitVec.toNat_and, BitVec.toNat_ushiftRight, Nat.shiftRight_eq_div_pow]
  exact Nat.and_two_pow_sub_one_eq_mod _ 9

theorem pdpe_eq (virt : Word) : pdpe virt = virt.toNat / 2 ^ 30 % 2 ^ 9 := by
  simp only [pdpe, BitVec.toNat_and, BitVec.toNat_ushiftRight, Nat.shiftRight_eq_div_pow]
  exact Nat.and_two_pow_sub_one_eq_mod _ 9

theorem pde_eq (virt : Word) : pde virt = virt.toNat / 2 ^ 21 % 2 ^ 9 := by
  simp only [pde, BitVec.toNat_and, BitVec.toNat_ushiftRight, Nat.shiftRight_eq_div_pow]
  exact Nat.and_two_pow_sub_one_eq_mod _ 9

theorem pte_eq (virt : Word) : pte virt = virt.toNat / 2 ^ 12 % 2 ^ 9 := by
  simp only [pte, BitVec.toNat_and, BitVec.toNat_ushiftRight, Nat.shiftRight_eq_div_pow]
  exact Nat.and_two_pow_sub_one_eq_mod _ 9

/-- The path to the entry that maps the page of an address. -/
def pagePath (type : MemoryType) (virt : Word) : List ℕ := (indices virt).take (5 - leafLevel type)

/-- Two groups of bits are one larger group. -/
theorem bits_eq_iff (a b m n k : ℕ) : a / 2 ^ (m + n) % 2 ^ k = b / 2 ^ (m + n) % 2 ^ k ∧ a / 2 ^ m % 2 ^ n = b / 2 ^ m % 2 ^ n ↔
    a / 2 ^ m % 2 ^ (n + k) = b / 2 ^ m % 2 ^ (n + k) := by
  rw [pow_add, pow_add, ← Nat.div_div_eq_div_mul, ← Nat.div_div_eq_div_mul]
  constructor
  · rintro ⟨hhigh, hlow⟩
    rw [Nat.mod_mul, Nat.mod_mul, hhigh, hlow]
  · intro h
    refine ⟨?_, ?_⟩
    · rw [← Nat.mod_mul_right_div_self, h, Nat.mod_mul_right_div_self]
    · rw [← Nat.mod_mul_right_mod (a / 2 ^ m) (2 ^ n) (2 ^ k), h, Nat.mod_mul_right_mod]

/-- The page of an address in the 48 bits that are translated. -/
theorem mod_div_eq (a m k : ℕ) : a % 2 ^ (m + k) / 2 ^ m = a / 2 ^ m % 2 ^ k := by
  rw [pow_add, Nat.mod_mul_right_div_self]

/-- **A path goes through the entry of a page exactly for the addresses in the
page**, as far as addresses are translated. -/
theorem pagePath_prefix_iff {type : MemoryType} {virt v : Word} : pagePath type virt <+: indices v ↔
    v.toNat % 2 ^ 48 / type.pageSize.toNat = virt.toNat % 2 ^ 48 / type.pageSize.toNat := by
  have hpdpe := bits_eq_iff virt.toNat v.toNat 30 9 9
  have hpde := bits_eq_iff virt.toNat v.toNat 21 9 18
  have hpte := bits_eq_iff virt.toNat v.toNat 12 9 27
  rcases leafLevel_cases type with ⟨hl, -, hps⟩ | ⟨hl, -, -, hps⟩ | ⟨hl, -, -, hps⟩
  · have hsize : type.pageSize.toNat = 2 ^ 30 := by rw [hps]; rfl
    have hpath : pagePath type virt = [pml4e virt, pdpe virt] := by rw [pagePath, hl]; rfl
    rw [hpath, hsize, indices, List.cons_prefix_cons, List.cons_prefix_cons, and_iff_left List.nil_prefix,
      pml4e_eq, pml4e_eq, pdpe_eq, pdpe_eq, hpdpe, ← mod_div_eq, ← mod_div_eq, eq_comm]
  · have hsize : type.pageSize.toNat = 2 ^ 21 := by rw [hps]; rfl
    have hpath : pagePath type virt = [pml4e virt, pdpe virt, pde virt] := by rw [pagePath, hl]; rfl
    rw [hpath, hsize, indices, List.cons_prefix_cons, List.cons_prefix_cons, List.cons_prefix_cons,
      and_iff_left List.nil_prefix, pml4e_eq, pml4e_eq, pdpe_eq, pdpe_eq, pde_eq, pde_eq, ← and_assoc, hpdpe, hpde,
      ← mod_div_eq, ← mod_div_eq, eq_comm]
  · have hsize : type.pageSize.toNat = 2 ^ 12 := by rw [hps]; rfl
    have hpath : pagePath type virt = [pml4e virt, pdpe virt, pde virt, pte virt] := by rw [pagePath, hl]; rfl
    rw [hpath, hsize, indices, List.cons_prefix_cons, List.cons_prefix_cons, List.cons_prefix_cons,
      List.cons_prefix_cons, and_iff_left List.nil_prefix, pml4e_eq, pml4e_eq, pdpe_eq, pdpe_eq, pde_eq, pde_eq,
      pte_eq, pte_eq, ← and_assoc, hpdpe, ← and_assoc, hpde, hpte, ← mod_div_eq, ← mod_div_eq, eq_comm]

/-- The distance of two addresses in the 48 bits that are translated. -/
def offset (virt v : Word) : ℕ := (v - virt).toNat % 2 ^ 48

/-- The addresses in a page are those at a small distance from its start. -/
theorem pagePath_prefix_iff_offset {type : MemoryType} {virt v : Word}
    (hvirt : virt.toNat % type.pageSize.toNat = 0) :
    pagePath type virt <+: indices v ↔ offset virt v < type.pageSize.toNat := by
  have h₁ := virt.isLt
  have h₂ := v.isLt
  rw [pagePath_prefix_iff]
  rw [offset]
  rw [BitVec.toNat_sub]
  rcases pageSize_toNat type with hP | hP | hP <;> rw [hP] at hvirt ⊢ <;> omega

/-- A range of pages is its first page and the rest. -/
theorem offset_lt_iff {type : MemoryType} {virt length v : Word} (hlength : length.toNat ≤ 2 ^ 48)
    (hle : type.pageSize.toNat ≤ length.toNat) :
    offset virt v < length.toNat ↔ offset virt v < type.pageSize.toNat ∨
      offset (virt + type.pageSize) v < (length - type.pageSize).toNat := by
  have h₁ := virt.isLt
  have h₂ := v.isLt
  unfold offset
  rcases pageSize_toNat type with hP | hP | hP <;>
    simp only [BitVec.toNat_sub, BitVec.toNat_add, hP] at * <;> omega

/-- Distances in the rest are shorter by a page. -/
theorem offset_eq_add {type : MemoryType} {virt length v : Word} (hlength : length.toNat ≤ 2 ^ 48)
    (hle : type.pageSize.toNat ≤ length.toNat)
    (hv : offset (virt + type.pageSize) v < (length - type.pageSize).toNat) :
    offset virt v = offset (virt + type.pageSize) v + type.pageSize.toNat := by
  have h₁ := virt.isLt
  have h₂ := v.isLt
  unfold offset at hv ⊢
  rcases pageSize_toNat type with hP | hP | hP <;>
    simp only [BitVec.toNat_sub, BitVec.toNat_add, hP] at * <;> omega

/-- In one half, distances are differences. -/
theorem InHalf.inRange_iff {virt length v : Word} (h : InHalf virt length) (hv : Canonical v) :
    InRange virt length v ↔ offset virt v < length.toNat := by
  have h₁ := virt.isLt
  have h₂ := v.isLt
  rw [InHalf] at h
  rw [Canonical] at hv
  rw [InRange, offset]
  rw [BitVec.toNat_sub]
  omega

/-- The entry for a page of a type. -/
def leafWord (type : MemoryType) (phys : Word) : Word :=
  if leafLevel type = 1 then phys ||| pageFlags type
  else phys ||| PageFlag.pagesize ||| pageFlags type

/-- An entry for a page ends the lookup. -/
theorem kind_leafWord (type : MemoryType) (phys : Word) :
    kind (leafLevel type) (leafWord type phys) = .leaf := by
  have hpresent : Present (leafWord type phys) := by
    rw [leafWord]
    split_ifs <;> exact and_or_ne_zero (pageFlags_spec type).1
  have hlarge : leafLevel type ≠ 1 → Large (leafWord type phys) := by
    intro hl
    rw [leafWord, if_neg hl, BitVec.or_assoc, BitVec.or_comm PageFlag.pagesize, ← BitVec.or_assoc]
    exact and_or_ne_zero (by decide)
  rw [kind]
  rw [if_neg (not_not.mpr hpresent), if_neg]
  rcases leafLevel_cases type with ⟨hl, -⟩ | ⟨hl, -⟩ | ⟨hl, -⟩ <;> simp [hl] at hlarge ⊢ <;>
    exact hlarge

/-- It is for the address that the page is mapped to. -/
theorem leafAddress_leafWord {type : MemoryType} {phys v : Word}
    (hphys : phys.toNat % type.pageSize.toNat = 0) (hlt : phys.toNat < 2 ^ 63) :
    leafAddress (leafWord type phys) v type.pageSize = phys + (v &&& (type.pageSize - 1)) := by
  have halign : phys &&& (type.pageSize - 1) = 0 := and_pageSize_eq_zero.mpr hphys
  have hmask : phys &&& (PageFlag.nx ||| (type.pageSize - 1)) = 0 := by
    rw [BitVec.and_or_distrib_left, halign, and_nx_eq_zero hlt]
    rfl
  have hbase : leafWord type phys &&& ~~~(PageFlag.nx ||| (type.pageSize - 1)) = phys := by
    have hor : leafWord type phys = phys ||| if leafLevel type = 1 then pageFlags type
        else PageFlag.pagesize ||| pageFlags type := by
      rw [leafWord]
      split_ifs <;> simp [BitVec.or_assoc]
    rw [hor]
    refine or_and_not hmask ?_
    rcases leafLevel_cases type with ⟨hl, -, hps⟩ | ⟨hl, -, -, hps⟩ | ⟨hl, -, -, hps⟩
    all_goals
      rw [hl, hps]
      rw [pageFlags, tableFlags]
      split_ifs <;> decide
  rw [leafAddress, hbase, BitVec.add_eq_or_of_and_eq_zero]
  rw [BitVec.and_comm v, ← BitVec.and_assoc, halign]
  simp

variable {s s' : MemoryManager} {level : Word → Option ℕ} {path : List ℕ} {p q : Word} {i : ℕ}
  {type : MemoryType}

/-! ## The tables of a manager -/

/-- What `alloc_physical` hands out next: pages that are not in use, each of them
once. -/
def FreshPages (pool used : List Word) : Prop :=
  pool.Nodup ∧ ∀ p ∈ pool, IsPage p ∧ p ∉ used

/-- The tables of a manager are a forest of pages that it was handed out. -/
structure Tables (s : MemoryManager) (level : Word → Option ℕ) : Prop where
  /-- tables have levels and one parent -/
  forest : Forest kind level s.mem
  /-- the root is a table of level 4 -/
  root : level s.pml4_ = some 4
  /-- `table_entry` leaves the root alone -/
  isPage : IsPage s.pml4_
  /-- tables are handed-out pages -/
  used : ∀ {p n}, level p = some n → p ∈ s.used
  /-- `alloc_physical` hands out pages not in use -/
  pool : FreshPages s.pool s.used

/-- The entry that the path leads to, and its level. -/
def entryAt (s : MemoryManager) (path : List ℕ) : Option (ℕ × Word) :=
  lookup kind s.mem 4 s.pml4_ path

/-- The path leads to a table of the manager. -/
def TableAt (s : MemoryManager) (path : List ℕ) (p : Word) : Prop :=
  Reaches kind s.mem 4 s.pml4_ path p

/-- The two states differ in tables at most. -/
def SameRecords (s s' : MemoryManager) : Prop :=
  s' = { s with mem := s'.mem, pool := s'.pool, used := s'.used }

theorem SameRecords.trans {s₁ s₂ s₃ : MemoryManager} (h : SameRecords s₁ s₂)
    (h' : SameRecords s₂ s₃) : SameRecords s₁ s₃ := by
  rw [SameRecords] at *
  rw [h', h]

theorem SameRecords.pml4_eq (h : SameRecords s s') : s'.pml4_ = s.pml4_ := by rw [h]

/-- What `alloc_table` does when it returns. -/
theorem allocTable_eq_done (hs : s.allocTable = .done (q, s')) :
    ∃ pool, s.pool = q :: pool ∧ s' = { s with
      mem := fun p i => if p = q then 0 else s.mem p i, pool := pool, used := q :: s.used } := by
  rw [MemoryManager.allocTable] at hs
  cases hpool : s.pool with
  | nil => simp [hpool] at hs
  | cons page pool =>
    rw [hpool] at hs
    cases hs
    exact ⟨pool, rfl, rfl⟩

/-- A new table is a page that was no table, and no table sees that it is cleared. -/
structure NewTable (s : MemoryManager) (level : Word → Option ℕ) (q : Word) (s' : MemoryManager) : Prop where
  /-- it is a page -/
  isPage : IsPage q
  /-- it was no table -/
  noTable : level q = none
  /-- and not in use -/
  unused : q ∉ s.used
  /-- the tables stay -/
  same : ∀ p n i, level p = some n → s'.mem p i = s.mem p i
  /-- and are a forest -/
  forest : Forest kind level s'.mem
  /-- the page is empty -/
  empty : ∀ m i, kind m (s'.mem q i) = .absent
  /-- it is in use now -/
  used : s'.used = q :: s.used
  /-- the other free pages are fresh -/
  pool : FreshPages s'.pool s'.used
  /-- nothing else changes -/
  records : SameRecords s s'

theorem Tables.allocTable (h : Tables s level) (hs : s.allocTable = .done (q, s')) : NewTable s level q s' := by
  obtain ⟨pool, hpool, rfl⟩ := allocTable_eq_done hs
  obtain ⟨hpage, hunused⟩ := h.pool.2 q (by rw [hpool]; exact List.mem_cons_self)
  have hnone : level q = none := by
    by_contra hsome
    obtain ⟨n, hn⟩ := Option.ne_none_iff_exists'.mp hsome
    exact hunused (h.used hn)
  have hsame : ∀ p n i, level p = some n → (if p = q then 0 else s.mem p i) = s.mem p i := by
    intro r n j hr
    refine if_neg ?_
    rintro rfl
    rw [hnone] at hr
    cases hr
  have hnodup : q ∉ pool ∧ pool.Nodup := List.nodup_cons.mp (hpool ▸ h.pool.1)
  refine ⟨hpage, hnone, hunused, hsame, h.forest.mono fun p n i hp => .inl (hsame p n i hp), fun m i => ?_,
    rfl, ⟨hnodup.2, fun r hr => ?_⟩, rfl⟩
  · have hzero : (if q = q then 0 else s.mem q i) = 0 := if_pos rfl
    exact (congrArg (kind m) hzero).trans (kind_zero m)
  · obtain ⟨hrpage, hrused⟩ := h.pool.2 r (by rw [hpool]; exact List.mem_cons_of_mem _ hr)
    refine ⟨hrpage, fun hmem => ?_⟩
    rcases List.mem_cons.mp hmem with rfl | hmem
    · exact hnodup.1 hr
    · exact hrused hmem

/-- **`alloc_table_entry` hangs a new table** on an entry that is not present,
and changes no translation. -/
theorem Tables.allocTableEntry (h : Tables s level) (hp : s.TableAt path p)
    (hlen : path.length ≤ 2) (hpresent : ¬ Present (s.mem p i))
    (hs : s.allocTableEntry p i (entryFlags type) = .done (q, s')) :
    ∃ level', Tables s' level' ∧ SameRecords s s' ∧ s'.TableAt (path ++ [i]) q ∧
      s'.entryAt = s.entryAt := by
  obtain ⟨⟨page, s₁⟩, halloc, hs⟩ := Outcome.bind_eq_done.mp hs
  cases hs
  have ht := h.allocTable halloc
  have hroot : q ≠ s.pml4_ := by
    rintro rfl
    exact absurd ht.noTable (by rw [h.root]; exact Option.some_ne_none 4)
  have hpml4 : s₁.pml4_ = s.pml4_ := ht.records.pml4_eq
  have hreach : Reaches kind s₁.mem 4 s.pml4_ path p := hp.congr h.forest h.root ht.same
  -- its entry hangs it one level below `p`
  have hlevel := (hp.level_eq h.forest h.root).2
  obtain ⟨k, hk⟩ : ∃ k, 4 - path.length = k + 1 := ⟨3 - path.length, by omega⟩
  rw [hk] at hlevel
  have hword : kind (k + 1) (q ||| entryFlags type) = .table q := kind_table (by omega) ht.isPage type
  have habsent : kind (k + 1) (s₁.mem p i) = .absent := by
    rw [ht.same _ _ _ hlevel, kind, if_pos hpresent]
  refine ⟨Function.update level q (some k), ⟨?_, ?_, ?_, ?_, ht.pool⟩, ?_, ?_, ?_⟩
  · exact ht.forest.link hlevel ht.noTable ht.empty hword
  · exact (Function.update_of_ne (hpml4 ▸ hroot.symm) _ _).trans (hpml4 ▸ h.root)
  · exact hpml4.symm ▸ h.isPage
  · intro r n hr
    have hused : (s₁.writeEntry p i (q ||| entryFlags type)).used = q :: s.used := ht.used
    rw [hused]
    by_cases hrp : r = q
    · exact List.mem_cons.mpr (.inl hrp)
    · rw [Function.update_of_ne hrp] at hr
      exact List.mem_cons.mpr (.inr (h.used hr))
  · exact ht.records.trans rfl
  · rw [TableAt]
    refine .step (?_ : Reaches kind (write s₁.mem p i _) 4 s₁.pml4_ path p) ?_
    · rw [hpml4]
      refine hreach.write_off_path hreach ht.forest h.root fun hpre => ?_
      simpa using hpre.length_le
    · rw [hk]
      simpa [writeEntry] using hword
  · funext is
    rw [entryAt, entryAt]
    change lookup kind (write s₁.mem p i (q ||| entryFlags type)) 4 s₁.pml4_ is = _
    rw [hpml4]
    calc lookup kind (write s₁.mem p i (q ||| entryFlags type)) 4 s.pml4_ is
        = lookup kind s₁.mem 4 s.pml4_ is :=
          lookup_link ht.forest h.root hreach hk habsent ht.noTable ht.empty hword is
      _ = lookup kind s.mem 4 s.pml4_ is := lookup_congr h.forest h.root ht.same is

/-- **`alloc_if_not_present` gives the table of the entry**, and changes no
translation. -/
theorem Tables.allocIfNotPresent (h : Tables s level) (hp : s.TableAt path p)
    (hlen : path.length ≤ 2)
    (hs : s.allocIfNotPresent p i (entryFlags type) = .done (q, s')) :
    ∃ level', Tables s' level' ∧ SameRecords s s' ∧ s'.TableAt (path ++ [i]) q ∧
      s'.entryAt = s.entryAt := by
  by_cases hpresent : Present (s.mem p i)
  · simp only [MemoryManager.allocIfNotPresent, hpresent, if_true] at hs
    obtain ⟨hcheck, hret⟩ := Outcome.require_bind_eq_done.mp hs
    cases hret
    exact ⟨level, h, rfl, hp.step (kind_of_check (by omega) hpresent hcheck), rfl⟩
  · simp only [MemoryManager.allocIfNotPresent, hpresent, if_false] at hs
    exact h.allocTableEntry hp hlen hpresent hs

/-- **The entry of a page is written**: this ends the lookups through it, and
changes no other. -/
theorem Tables.writeEntry (h : Tables s level) (hp : s.TableAt path p) (hlen : path.length < 4)
    {w : Word} (hw : ∀ q, kind (4 - path.length) w ≠ .table q) :
    Tables (s.writeEntry p i w) level ∧ SameRecords s (s.writeEntry p i w) ∧
      ∀ is, (s.writeEntry p i w).entryAt is =
        if path ++ [i] <+: is then
          if kind (4 - path.length) w = .leaf then some (4 - path.length, w) else none
        else s.entryAt is := by
  have hlevel := (hp.level_eq h.forest h.root).2
  exact ⟨⟨h.forest.of_write hlevel hw, h.root, h.isPage, h.used, h.pool⟩, rfl,
    lookup_write h.forest h.root hp hlen hw⟩

/-- **The entry of a page is mapped.** -/
theorem Tables.writeLeaf {virt phys : Word} (h : Tables s level) (hp : s.TableAt path p)
    (hpath : path ++ [i] = pagePath type virt) (hlen : path.length = 4 - leafLevel type) :
    Tables (s.writeEntry p i (leafWord type phys)) level ∧
      SameRecords s (s.writeEntry p i (leafWord type phys)) ∧
      ∀ is, (s.writeEntry p i (leafWord type phys)).entryAt is =
        if pagePath type virt <+: is then some (leafLevel type, leafWord type phys)
        else s.entryAt is := by
  have hpos : 1 ≤ leafLevel type ∧ leafLevel type ≤ 3 := by
    rcases leafLevel_cases type with ⟨hl, -⟩ | ⟨hl, -⟩ | ⟨hl, -⟩ <;> omega
  have hl : 4 - path.length = leafLevel type := by omega
  have hkind := kind_leafWord type phys
  rw [← hl] at hkind
  obtain ⟨ht, hr, he⟩ := h.writeEntry hp (by omega)
    (fun q hq => by rw [hkind] at hq; cases hq)
  refine ⟨ht, hr, fun is => ?_⟩
  rw [he, hpath, if_pos hkind, hl]

theorem one_le_leafLevel (type : MemoryType) : 1 ≤ leafLevel type := by
  rcases leafLevel_cases type with ⟨hl, -⟩ | ⟨hl, -⟩ | ⟨hl, -⟩ <;> omega

theorem length_pagePath (type : MemoryType) (virt : Word) :
    (pagePath type virt).length = 5 - leafLevel type := by
  rcases leafLevel_cases type with ⟨hl, -⟩ | ⟨hl, -⟩ | ⟨hl, -⟩ <;> rw [pagePath, hl] <;> rfl

/-- **The walk of `do_map_memory`** to the entry of a page fills entries on the path, which keeps what
filling an entry keeps. -/
theorem Tables.mapPage_walk {R : MemoryManager → Prop} {virt phys : Word} (h : Tables s level)
    (hfill : ∀ {s₁ s₂ level₁ path p q i}, Tables s₁ level₁ → s₁.TableAt path p →
      path ++ [i] <+: indices virt → path.length + leafLevel type < 4 →
      s₁.allocIfNotPresent p i (entryFlags type) = .done (q, s₂) → R s₁ → R s₂)
    (hR : R s) (hs : s.mapPage virt type phys = .done s') :
    ∃ level₁ s₁ path p i, Tables s₁ level₁ ∧ R s₁ ∧ s₁.TableAt path p ∧ path ++ [i] = pagePath type virt ∧
      s' = s₁.writeEntry p i (leafWord type phys) := by
  obtain ⟨⟨pdp, s₁⟩, h₁, hs⟩ := Outcome.bind_eq_done.mp hs
  obtain ⟨level₁, ht₁, -, hp₁, -⟩ := h.allocIfNotPresent .root (by simp) h₁
  have hR₁ : leafLevel type < 4 → R s₁ := fun hl =>
    hfill h .root ⟨_, rfl⟩ (by simpa using hl) h₁ hR
  have hword : leafWord type phys = if leafLevel type = 1 then phys ||| pageFlags type
      else phys ||| PageFlag.pagesize ||| pageFlags type := rfl
  rcases leafLevel_cases type with ⟨hl, hgb, -⟩ | ⟨hl, hgb, hmb, -⟩ | ⟨hl, hgb, hmb, -⟩
  · -- the entry is in the table of level 3
    rw [hl, if_neg (by decide)] at hword
    simp only [hgb, if_true, Outcome.pure_eq, Outcome.done.injEq, ← hword] at hs
    exact ⟨level₁, s₁, _, pdp, pdpe virt, ht₁, hR₁ (by omega), hp₁, by rw [pagePath, hl]; rfl, hs.symm⟩
  · -- in the one of level 2
    rw [hl, if_neg (by decide)] at hword
    simp only [hgb, if_false] at hs
    obtain ⟨⟨pd, s₂⟩, h₂, hs⟩ := Outcome.bind_eq_done.mp hs
    obtain ⟨level₂, ht₂, -, hp₂, -⟩ := ht₁.allocIfNotPresent hp₁ (by simp) h₂
    have hR₂ : R s₂ := hfill ht₁ hp₁ ⟨_, rfl⟩ (by simp [hl]) h₂ (hR₁ (by omega))
    simp only [hmb, if_true, Outcome.pure_eq, Outcome.done.injEq, ← hword] at hs
    exact ⟨level₂, s₂, _, pd, pde virt, ht₂, hR₂, hp₂, by rw [pagePath, hl]; rfl, hs.symm⟩
  · -- in the one of level 1
    rw [hl, if_pos rfl] at hword
    simp only [hgb, if_false] at hs
    obtain ⟨⟨pd, s₂⟩, h₂, hs⟩ := Outcome.bind_eq_done.mp hs
    obtain ⟨level₂, ht₂, -, hp₂, -⟩ := ht₁.allocIfNotPresent hp₁ (by simp) h₂
    have hR₂ : R s₂ := hfill ht₁ hp₁ ⟨_, rfl⟩ (by simp [hl]) h₂ (hR₁ (by omega))
    simp only [hmb, if_false] at hs
    obtain ⟨⟨pt, s₃⟩, h₃, hs⟩ := Outcome.bind_eq_done.mp hs
    obtain ⟨level₃, ht₃, -, hp₃, -⟩ := ht₂.allocIfNotPresent hp₂ (by simp) h₃
    have hR₃ : R s₃ := hfill ht₂ hp₂ ⟨_, rfl⟩ (by simp [hl]) h₃ hR₂
    simp only [Outcome.pure_eq, Outcome.done.injEq, ← hword] at hs
    exact ⟨level₃, s₃, _, pt, pte virt, ht₃, hR₃, hp₃, by rw [pagePath, hl]; rfl, hs.symm⟩

/-- **`do_map_memory` maps a page** and changes no other translation. -/
theorem Tables.mapPage {virt phys : Word} (h : Tables s level)
    (hs : s.mapPage virt type phys = .done s') :
    ∃ level', Tables s' level' ∧ SameRecords s s' ∧ ∀ is, s'.entryAt is =
      if pagePath type virt <+: is then some (leafLevel type, leafWord type phys)
      else s.entryAt is := by
  obtain ⟨level₁, s₁, path, p, i, ht₁, ⟨hr₁, he₁⟩, hp, hpath, rfl⟩ :=
    h.mapPage_walk (R := fun s₁ => SameRecords s s₁ ∧ s₁.entryAt = s.entryAt)
      (fun ht hp _ hlen hfill hR => by
        have hpos := one_le_leafLevel type
        obtain ⟨-, -, hr, -, he⟩ := ht.allocIfNotPresent hp (by omega) hfill
        exact ⟨hR.1.trans hr, he.trans hR.2⟩) ⟨rfl, rfl⟩ hs
  have hlen : path.length = 4 - leafLevel type := by
    have hlength := congrArg List.length hpath
    rw [List.length_append, List.length_singleton, length_pagePath] at hlength
    omega
  obtain ⟨ht, hr, he⟩ := ht₁.writeLeaf hp hpath hlen
  exact ⟨level₁, ht, hr₁.trans hr, he₁ ▸ he⟩

/-! ## The pages of a mapping -/

/-- An address is mapped to another by a page of the type. -/
def MapsTo (s : MemoryManager) (type : MemoryType) (virt phys : Word) : Prop :=
  ∃ w, s.entryAt (indices virt) = some (leafLevel type, w) ∧
    leafAddress w virt type.pageSize = phys

/-- What is left of a range of pages without the first one. -/
theorem rest_of_pages {virt length : Word} (hvirt : virt.toNat % type.pageSize.toNat = 0)
    (hlength : length.toNat % type.pageSize.toNat = 0) (hne : length ≠ 0) :
    type.pageSize.toNat ≤ length.toNat ∧ (virt + type.pageSize).toNat % type.pageSize.toNat = 0 ∧
      (length - type.pageSize).toNat % type.pageSize.toNat = 0 ∧
      (length - type.pageSize).toNat + type.pageSize.toNat = length.toNat := by
  have hpos : length.toNat ≠ 0 := by simpa [BitVec.toNat_eq] using hne
  have hv := virt.isLt
  have hl := length.isLt
  rcases pageSize_toNat type with hP | hP | hP <;> rw [hP] at hvirt hlength <;>
    simp only [BitVec.toNat_add, BitVec.toNat_sub, hP] <;> omega

/-- The physical page of an address in a range that is mapped to `phys`. -/
def pageOf (type : MemoryType) (virt phys v : Word) : Word :=
  phys + BitVec.ofNat 64 (offset virt v / type.pageSize.toNat * type.pageSize.toNat)

/-- An address of the rest has the page it has in the whole range. -/
theorem pageOf_rest {virt length phys v : Word} (hlength : length.toNat ≤ 2 ^ 48)
    (hle : type.pageSize.toNat ≤ length.toNat)
    (hv : offset (virt + type.pageSize) v < (length - type.pageSize).toNat) :
    pageOf type (virt + type.pageSize) (phys + type.pageSize) v = pageOf type virt phys v := by
  have hpos : 0 < type.pageSize.toNat := by
    rcases pageSize_toNat type with hP | hP | hP <;> omega
  unfold pageOf
  rw [offset_eq_add hlength hle hv, Nat.add_div_right _ hpos, Nat.succ_mul, BitVec.ofNat_add,
    BitVec.ofNat_toNat, BitVec.setWidth_eq]
  grind

/-- The loop of `do_map_memory` keeps the tables. -/
theorem Tables.mapLoop {fuel : ℕ} {virt length phys : Word} (h : Tables s level)
    (hs : mapLoop type fuel s virt length phys = .done s') :
    ∃ level', Tables s' level' ∧ SameRecords s s' := by
  induction fuel generalizing s level virt length phys with
  | zero => simp [MemoryManager.mapLoop] at hs
  | succ fuel ih =>
    rw [MemoryManager.mapLoop] at hs
    split_ifs at hs with hne
    · obtain ⟨s₁, h₁, hs⟩ := Outcome.bind_eq_done.mp hs
      obtain ⟨level₁, ht₁, hr₁, -⟩ := h.mapPage h₁
      obtain ⟨level₂, ht₂, hr₂⟩ := ih ht₁ hs
      exact ⟨level₂, ht₂, hr₁.trans hr₂⟩
    · cases hs
      exact ⟨level, h, rfl⟩

/-- **It writes the entries of a range** and changes no other. -/
theorem Tables.mapLoop_entryAt {fuel : ℕ} {virt length phys : Word} (h : Tables s level)
    (hvirt : virt.toNat % type.pageSize.toNat = 0)
    (hlength : length.toNat % type.pageSize.toNat = 0) (hmax : length.toNat ≤ 2 ^ 48)
    (hs : MemoryManager.mapLoop type fuel s virt length phys = .done s') (v : Word) :
    s'.entryAt (indices v) = if offset virt v < length.toNat
      then some (leafLevel type, leafWord type (pageOf type virt phys v))
      else s.entryAt (indices v) := by
  induction fuel generalizing s level virt length phys with
  | zero => simp [MemoryManager.mapLoop] at hs
  | succ fuel ih =>
    rw [MemoryManager.mapLoop] at hs
    split_ifs at hs with hne
    · obtain ⟨s₁, h₁, hs⟩ := Outcome.bind_eq_done.mp hs
      obtain ⟨level₁, ht₁, -, he₁⟩ := h.mapPage h₁
      obtain ⟨hle, hvirt', hlength', hlen⟩ := rest_of_pages hvirt hlength hne
      rw [ih ht₁ hvirt' hlength' (by omega) hs, he₁]
      simp only [offset_lt_iff hmax hle, pagePath_prefix_iff_offset hvirt]
      by_cases hrest : offset (virt + type.pageSize) v < (length - type.pageSize).toNat
      · rw [if_pos hrest, if_pos (.inr hrest), pageOf_rest hmax hle hrest]
      · rw [if_neg hrest]
        by_cases hfirst : offset virt v < type.pageSize.toNat
        · -- the page of `v` is the first one
          rw [if_pos hfirst, if_pos (.inl hfirst), pageOf, Nat.div_eq_of_lt hfirst]
          simp
        · rw [if_neg hfirst, if_neg (not_or.mpr ⟨hfirst, hrest⟩)]
    · have hzero : length.toNat = 0 := by simpa [BitVec.toNat_eq] using hne
      cases hs
      rw [if_neg (by omega)]

/-- An address is mapped to its page and its place in the page. -/
theorem leafAddress_pageOf {virt phys v : Word} (hvirt : virt.toNat % type.pageSize.toNat = 0)
    (hphys : phys.toNat % type.pageSize.toNat = 0) (hlt : phys.toNat + offset virt v < 2 ^ 63) :
    leafAddress (leafWord type (pageOf type virt phys v)) v type.pageSize =
      phys + BitVec.ofNat 64 (offset virt v) := by
  have hv := v.isLt
  have hv' := virt.isLt
  have hle : offset virt v / type.pageSize.toNat * type.pageSize.toNat ≤ offset virt v :=
    Nat.div_mul_le_self _ _
  have hpage : (pageOf type virt phys v).toNat =
      phys.toNat + offset virt v / type.pageSize.toNat * type.pageSize.toNat := by
    rw [pageOf]
    rw [BitVec.toNat_add, BitVec.toNat_ofNat, Nat.mod_eq_of_lt (by omega), Nat.mod_eq_of_lt (by omega)]
  rw [leafAddress_leafWord (by rw [hpage, Nat.add_mul_mod_self_right, hphys]) (by omega)]
  -- the place of `v` in its page
  have hplace : v.toNat % type.pageSize.toNat = offset virt v % type.pageSize.toNat := by
    rw [offset]
    rw [BitVec.toNat_sub]
    rcases pageSize_toNat type with hP | hP | hP <;> rw [hP] at hvirt ⊢ <;> omega
  have hdiv := Nat.div_add_mod (offset virt v) type.pageSize.toNat
  rw [Nat.mul_comm] at hdiv
  rw [← BitVec.toNat_inj, BitVec.toNat_add, hpage, toNat_and_pageSize, hplace, BitVec.toNat_add,
    BitVec.toNat_ofNat, Nat.mod_eq_of_lt (show offset virt v < 2 ^ 64 by omega), Nat.add_assoc, hdiv]

/-- **It maps a range** and changes no other translation. -/
theorem Tables.mapLoop_mapsTo {fuel : ℕ} {virt length phys : Word} (h : Tables s level)
    (hvirt : virt.toNat % type.pageSize.toNat = 0)
    (hlength : length.toNat % type.pageSize.toNat = 0)
    (hphys : phys.toNat % type.pageSize.toNat = 0) (hhalf : InHalf virt length)
    (hlt : phys.toNat + length.toNat < 2 ^ 63)
    (hs : MemoryManager.mapLoop type fuel s virt length phys = .done s') :
    (∀ v, Canonical v → InRange virt length v → s'.MapsTo type v (phys + (v - virt))) ∧
      ∀ v, Canonical v → ¬ InRange virt length v →
        s'.entryAt (indices v) = s.entryAt (indices v) := by
  have hmax : length.toNat ≤ 2 ^ 48 := by
    rw [InHalf] at hhalf
    omega
  have he := h.mapLoop_entryAt hvirt hlength hmax hs
  refine ⟨fun v hv hrange => ?_, fun v hv hrange => ?_⟩
  · have hoff := (hhalf.inRange_iff hv).mp hrange
    refine ⟨_, (he v).trans (if_pos hoff), ?_⟩
    rw [leafAddress_pageOf hvirt hphys (by omega)]
    congr 1
    rw [InRange] at hrange
    have h₁ := virt.isLt
    have h₂ := v.isLt
    rw [← BitVec.toNat_inj, BitVec.toNat_ofNat, BitVec.toNat_sub]
    rw [offset] at hoff ⊢
    rw [BitVec.toNat_sub] at hoff ⊢
    omega
  · rw [he v, if_neg (mt (hhalf.inRange_iff hv).mpr hrange)]

/-- What `virt_to_phys` does, by the entry of the address. -/
theorem Tables.virtToPhys (h : Tables s level) (virt : Word) :
    virtToPhys s.mem s.pml4_ virt = translation virt (s.entryAt (indices virt)) := by
  rw [virtToPhys_eq, h.isPage]
  rfl

/-- It finds where a page of a mapping is. -/
theorem MapsTo.translation {virt phys : Word} (h : s.MapsTo type virt phys) :
    translation virt (s.entryAt (indices virt)) = .done phys := by
  obtain ⟨w, hw, rfl⟩ := h
  rw [hw]
  rcases leafLevel_cases type with ⟨hl, -, hps⟩ | ⟨hl, -, -, hps⟩ | ⟨hl, -, -, hps⟩ <;>
    rw [hl, hps] <;> rfl

/-! ## Clearing the pages of a mapping -/

/-- Clearing a word keeps the tables, whatever page it is in. -/
theorem Tables.clear (h : Tables s level) (p : Word) (i : ℕ) :
    Tables (s.writeEntry p i 0) level where
  forest := by
    refine h.forest.mono fun p' n i' _ => ?_
    by_cases hslot : p' = p ∧ i' = i
    · obtain ⟨rfl, rfl⟩ := hslot
      have hzero : (s.writeEntry p' i' 0).mem p' i' = 0 := write_self _ _ _ _
      right
      intro q
      rw [hzero]
      exact kind_zero_ne_table n q
    · exact .inl (write_of_ne hslot)
  root := h.root
  isPage := h.isPage
  used := h.used
  pool := h.pool

/-- `do_unmap_memory` clears a word for each page. -/
theorem unmapPage_eq_done {virt : Word} (hs : s.unmapPage virt type = .done s') :
    ∃ p i, s' = s.writeEntry p i 0 := by
  rw [unmapPage] at hs
  obtain ⟨pdp, -, hs⟩ := Outcome.bind_eq_done.mp hs
  by_cases hgb : type.Has MemoryType.ps1gb
  · rw [if_pos hgb] at hs
    exact ⟨pdp, _, (Outcome.done.inj hs).symm⟩
  · rw [if_neg hgb] at hs
    obtain ⟨pd, -, hs⟩ := Outcome.bind_eq_done.mp hs
    by_cases hmb : type.Has MemoryType.ps2mb
    · rw [if_pos hmb] at hs
      exact ⟨pd, _, (Outcome.done.inj hs).symm⟩
    · rw [if_neg hmb] at hs
      obtain ⟨pt, -, hs⟩ := Outcome.bind_eq_done.mp hs
      exact ⟨pt, _, (Outcome.done.inj hs).symm⟩

/-- **The loop of `do_unmap_memory` keeps the tables**, also when the range is
not that of a mapping. -/
theorem Tables.unmapLoop {fuel : ℕ} {virt length : Word} (h : Tables s level)
    (hs : unmapLoop type fuel s virt length = .done s') : Tables s' level ∧ SameRecords s s' := by
  induction fuel generalizing s virt length with
  | zero => simp [MemoryManager.unmapLoop] at hs
  | succ fuel ih =>
    rw [MemoryManager.unmapLoop] at hs
    split_ifs at hs with hne
    · obtain ⟨s₁, h₁, hs⟩ := Outcome.bind_eq_done.mp hs
      obtain ⟨p, i, rfl⟩ := unmapPage_eq_done h₁
      obtain ⟨ht, hr⟩ := ih (h.clear p i) hs
      have hcleared : SameRecords s (s.writeEntry p i 0) := rfl
      exact ⟨ht, hcleared.trans hr⟩
    · cases hs
      exact ⟨h, rfl⟩

theorem kind_eq_table {n : ℕ} {w : Word} (h : kind n w = .table q) :
    Present w ∧ tableEntry w = q := by
  rw [kind] at h
  split_ifs at h with h₁ h₂
  exact ⟨h₁, Entry.table.inj h⟩

theorem presentTableEntry_eq {n : ℕ} {w : Word} (h : kind n w = .table q) :
    presentTableEntry w = .done q := by
  obtain ⟨hw, rfl⟩ := kind_eq_table h
  rw [presentTableEntry, Outcome.require_pos hw]
  rfl

/-- **The entry of a page of the type is cleared.** -/
theorem Tables.unmapPage {virt w : Word} (h : Tables s level)
    (hleaf : s.entryAt (indices virt) = some (leafLevel type, w))
    (hs : s.unmapPage virt type = .done s') :
    Tables s' level ∧ ∀ is, s'.entryAt is =
      if pagePath type virt <+: is then none else s.entryAt is := by
  -- the pointers on the path are followed, and the next word is cleared
  obtain ⟨path, p, i, hp, hpath, hlen, rfl⟩ : ∃ path p i, s.TableAt path p ∧
      path ++ [i] = pagePath type virt ∧ path.length < 4 ∧ s' = s.writeEntry p i 0 := by
    rw [MemoryManager.unmapPage] at hs
    rw [entryAt, indices] at hleaf
    rcases leafLevel_cases type with ⟨hl, hgb, -⟩ | ⟨hl, hgb, hmb, -⟩ | ⟨hl, hgb, hmb, -⟩
    · rw [hl] at hleaf
      obtain ⟨pdp, h₄, -⟩ := lookup_descend hleaf (by decide)
      simp only [presentTableEntry_eq h₄, Outcome.done_bind, hgb, if_true, Outcome.pure_eq,
        Outcome.done.injEq] at hs
      exact ⟨[] ++ [pml4e virt], pdp, pdpe virt, .step .root h₄, by simp [pagePath, hl, indices],
        by simp, hs.symm⟩
    · rw [hl] at hleaf
      obtain ⟨pdp, h₄, hleaf⟩ := lookup_descend hleaf (by decide)
      obtain ⟨pd, h₃, -⟩ := lookup_descend hleaf (by decide)
      simp only [presentTableEntry_eq h₄, presentTableEntry_eq h₃, Outcome.done_bind, hgb, hmb,
        if_false, if_true, Outcome.pure_eq, Outcome.done.injEq] at hs
      exact ⟨[] ++ [pml4e virt] ++ [pdpe virt], pd, pde virt, .step (.step .root h₄) h₃,
        by simp [pagePath, hl, indices], by simp, hs.symm⟩
    · rw [hl] at hleaf
      obtain ⟨pdp, h₄, hleaf⟩ := lookup_descend hleaf (by decide)
      obtain ⟨pd, h₃, hleaf⟩ := lookup_descend hleaf (by decide)
      obtain ⟨pt, h₂, -⟩ := lookup_descend hleaf (by decide)
      simp only [presentTableEntry_eq h₄, presentTableEntry_eq h₃, presentTableEntry_eq h₂,
        Outcome.done_bind, hgb, hmb, if_false, Outcome.pure_eq, Outcome.done.injEq] at hs
      exact ⟨[] ++ [pml4e virt] ++ [pdpe virt] ++ [pde virt], pt, pte virt,
        .step (.step (.step .root h₄) h₃) h₂, by simp [pagePath, hl, indices], by simp, hs.symm⟩
  obtain ⟨ht, -, he⟩ := h.writeEntry hp hlen (kind_zero_ne_table _)
  refine ⟨ht, fun is => ?_⟩
  rw [he, hpath, kind_zero]
  rfl

/-- **The loop of `do_unmap_memory` clears the entries of a mapped range** and
changes no other. -/
theorem Tables.unmapLoop_entryAt {fuel : ℕ} {virt length : Word} (h : Tables s level)
    (hvirt : virt.toNat % type.pageSize.toNat = 0)
    (hlength : length.toNat % type.pageSize.toNat = 0) (hmax : length.toNat ≤ 2 ^ 48)
    (hmapped : ∀ v, offset virt v < length.toNat →
      ∃ w, s.entryAt (indices v) = some (leafLevel type, w))
    (hs : MemoryManager.unmapLoop type fuel s virt length = .done s') (v : Word) :
    s'.entryAt (indices v) =
      if offset virt v < length.toNat then none else s.entryAt (indices v) := by
  induction fuel generalizing s virt length with
  | zero => simp [MemoryManager.unmapLoop] at hs
  | succ fuel ih =>
    rw [MemoryManager.unmapLoop] at hs
    split_ifs at hs with hne
    · obtain ⟨s₁, h₁, hs⟩ := Outcome.bind_eq_done.mp hs
      obtain ⟨hle, hvirt', hlength', hlen⟩ := rest_of_pages hvirt hlength hne
      have hpos : 0 < type.pageSize.toNat := by
        rcases pageSize_toNat type with hP | hP | hP <;> omega
      have hself : offset virt virt = 0 := by simp [offset]
      obtain ⟨w, hw⟩ := hmapped virt (by omega)
      obtain ⟨ht, he⟩ := h.unmapPage hw h₁
      have hrest := ih ht hvirt' hlength' (by omega) (fun v hv => by
        obtain ⟨w, hw⟩ := hmapped v ((offset_lt_iff hmax hle).mpr (.inr hv))
        have hoff := offset_eq_add hmax hle hv
        refine ⟨w, ?_⟩
        rw [he, if_neg (mt (pagePath_prefix_iff_offset hvirt).mp (by omega)), hw]) hs
      rw [hrest, he]
      simp only [offset_lt_iff hmax hle, pagePath_prefix_iff_offset hvirt]
      split_ifs <;> tauto
    · have hzero : length.toNat = 0 := by simpa [BitVec.toNat_eq] using hne
      cases hs
      rw [if_neg (by omega)]

/-- An address at a distance in a half has the indices of one in the half. -/
theorem InHalf.indices_eq {virt length v : Word} (h : InHalf virt length)
    (hv : offset virt v < length.toNat) :
    ∃ v', Canonical v' ∧ InRange virt length v' ∧ indices v' = indices v := by
  have h₁ := virt.isLt
  have h₂ := v.isLt
  rw [InHalf] at h
  have hoff : (BitVec.ofNat 64 (offset virt v)).toNat = offset virt v := by
    rw [BitVec.toNat_ofNat]
    exact Nat.mod_eq_of_lt (by omega)
  have hv' : (virt + BitVec.ofNat 64 (offset virt v)).toNat = virt.toNat + offset virt v := by
    rw [BitVec.toNat_add, hoff]
    exact Nat.mod_eq_of_lt (by omega)
  refine ⟨virt + BitVec.ofNat 64 (offset virt v), ?_, ?_, ?_⟩
  · rw [Canonical]
    omega
  · rw [InRange]
    omega
  · simp only [indices, pml4e_eq, pdpe_eq, pde_eq, pte_eq, hv', List.cons.injEq, and_true]
    rw [offset]
    rw [BitVec.toNat_sub]
    omega

/-- **The loop of `do_unmap_memory` clears a mapped range** and changes no other
translation. -/
theorem Tables.unmapLoop_of_mapped {fuel : ℕ} {virt length : Word} (h : Tables s level)
    (hvirt : virt.toNat % type.pageSize.toNat = 0)
    (hlength : length.toNat % type.pageSize.toNat = 0) (hhalf : InHalf virt length)
    (hmapped : ∀ v, Canonical v → InRange virt length v →
      ∃ w, s.entryAt (indices v) = some (leafLevel type, w))
    (hs : MemoryManager.unmapLoop type fuel s virt length = .done s') :
    ∀ v, Canonical v → s'.entryAt (indices v) =
      if InRange virt length v then none else s.entryAt (indices v) := by
  have hmax : length.toNat ≤ 2 ^ 48 := by
    rw [InHalf] at hhalf
    omega
  have he := h.unmapLoop_entryAt hvirt hlength hmax (fun v hv => by
    obtain ⟨v', hc, hrange, hindices⟩ := hhalf.indices_eq hv
    rw [← hindices]
    exact hmapped v' hc hrange) hs
  intro v hv
  rw [he v]
  simp only [hhalf.inRange_iff hv]

end MemoryManager

end Attos
