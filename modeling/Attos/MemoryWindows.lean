import Attos.MappedRanges
import Attos.Syscalls

/-!
# Windows on physical memory

A `mem_map_helper` maps the pages of a range of physical addresses and unmaps them when it is
destroyed. It can be moved: moves swap all fields with those of the other object, so that a window
always has one owner (`Inv.unique`). An object that owns a window shows the physical addresses that
it was constructed for, each window is unmapped once, when its owner is destroyed, and when all
objects are gone the addresses are translated as before (`run_windows`).

Windows come from the free virtual addresses of the manager. These stay in one half, because a
manager has records for 85 mappings only, and a window is no longer than 4 GB.
-/

namespace Attos

open Lib MemoryManager

namespace MemMapHelper

/-- Where the pages of the window start. -/
def base (h : MemMapHelper) : Word := mappedBase h.phys_

/-- The number of bytes of the pages of the window. -/
def size (h : MemMapHelper) : Word := mappedLength h.phys_ h.length_

/-- `ptr` -/
def ptr (h : MemMapHelper) : Word := h.mappedVirt_ + (h.phys_ &&& (0x1000 - 1))

/-- The constructor, with the address of the manager. -/
def construct (s : MemoryManager) (fuel mm : ℕ) (phys length : Word) (type : MemoryType) :
    Outcome (MemMapHelper × MemoryManager) := do
  let (virt, s) ← s.mapMemory fuel mapAllocVirt (mappedLength phys length) type (mappedBase phys)
  pure (⟨mm, phys, length, type, virt⟩, s)

/-- The move assignment: the new values of the object and of the other one. -/
def moveAssign (h other : MemMapHelper) : MemMapHelper × MemMapHelper := (other, h)

/-- The move constructor. It leaves the type of the other object to chance. -/
def moveConstruct (type : MemoryType) (other : MemMapHelper) : MemMapHelper × MemMapHelper :=
  moveAssign ⟨0, 0, 0, type, 0⟩ other

/-- The destructor, where the manager at the address `mm` is the only one. -/
def destroy (h : MemMapHelper) (s : MemoryManager) (fuel mm : ℕ) : Outcome MemoryManager :=
  if h.length_ ≠ 0 then do
    Outcome.require (h.mm_ = mm)
    s.unmapMemory fuel h.mappedVirt_ (mappedLength h.phys_ h.length_)
  else pure s

/-- The arguments of the call of `unmap_memory`. -/
def call (h : MemMapHelper) : Word × Word := (h.mappedVirt_, h.size)

/-- The range of physical addresses is not empty and below 4 GB. -/
structure Below4Gb (h : MemMapHelper) : Prop where
  /-- not empty -/
  length_ne : h.length_ ≠ 0
  /-- below 4 GB -/
  le : h.phys_.toNat + h.length_.toNat ≤ 2 ^ 32

variable {h : MemMapHelper}

theorem toNat_phys_and (h : MemMapHelper) : (h.phys_ &&& (0x1000 - 1)).toNat = h.phys_.toNat % 0x1000 :=
  toNat_and_pageSize h.phys_ MemoryType.read

theorem toNat_base (h : MemMapHelper) : h.base.toNat = h.phys_.toNat / 0x1000 * 0x1000 := by
  have hshift : h.base = (h.phys_ >>> 12) <<< 12 := by
    rw [base, mappedBase, show (0xfff : Word) = 0x1000 - 1 from rfl]
    ext i hi
    have hmask : (0x1000 - 1 : Word)[i] = decide (i < 12) := by
      rw [BitVec.getElem_eq_testBit_toNat, show (0x1000 - 1 : Word).toNat = 2 ^ 12 - 1 from rfl,
        Nat.testBit_two_pow_sub_one]
    rw [BitVec.getElem_and, BitVec.getElem_not, hmask, BitVec.getElem_shiftLeft]
    by_cases hlt : i < 12
    · simp [hlt]
    · have hsum : 12 + (i - 12) = i := by omega
      simp [hlt, hsum, BitVec.getLsbD_eq_getElem hi]
  have hlt := h.phys_.isLt
  rw [hshift, BitVec.toNat_shiftLeft, BitVec.toNat_ushiftRight, Nat.shiftRight_eq_div_pow, Nat.shiftLeft_eq]
  omega

/-- The pages of the window are those of the range. -/
theorem Below4Gb.toNat_size (hb : h.Below4Gb) : h.size.toNat =
    (h.phys_.toNat + h.length_.toNat + 0xfff) / 0x1000 * 0x1000 - h.phys_.toNat / 0x1000 * 0x1000 := by
  have hle := hb.le
  have hend : (h.phys_ + h.length_).toNat = h.phys_.toNat + h.length_.toNat := by
    rw [BitVec.toNat_add]
    omega
  have hround : roundUp (h.phys_.toNat + h.length_.toNat) =
      (h.phys_.toNat + h.length_.toNat + 0xfff) / 0x1000 * 0x1000 := by
    rw [roundUp, u64]
    split_ifs <;> omega
  have hbase := h.toNat_base
  rw [base] at hbase
  rw [size, mappedLength, BitVec.toNat_sub, hend, hround, hbase, BitVec.toNat_ofNat]
  omega

/-- A window has at most 4 GB. -/
theorem Below4Gb.size_le (hb : h.Below4Gb) : h.size.toNat ≤ 2 ^ 32 := by
  have hle := hb.le
  rw [hb.toNat_size]
  omega

/-- A window has at least a page. -/
theorem Below4Gb.size_pos (hb : h.Below4Gb) : 0 < h.size.toNat := by
  have hle := hb.le
  have hne : h.length_.toNat ≠ 0 := fun h0 => hb.length_ne (BitVec.toNat_inj.mp h0)
  rw [hb.toNat_size]
  omega

/-- The bytes of the range are in the window. -/
theorem Below4Gb.inRange (hb : h.Below4Gb) (hwrap : h.mappedVirt_.toNat + h.size.toNat < 2 ^ 64) {i : Word}
    (hi : i < h.length_) : InRange h.mappedVirt_ h.size (h.ptr + i) ∧
      h.base + (h.ptr + i - h.mappedVirt_) = h.phys_ + i := by
  have hle := hb.le
  have hlen := hb.toNat_size
  have hbase := h.toNat_base
  have hplace := h.toNat_phys_and
  rw [BitVec.lt_def] at hi
  have hptr : (h.ptr + i).toNat = h.mappedVirt_.toNat + h.phys_.toNat % 0x1000 + i.toNat := by
    rw [ptr, BitVec.toNat_add, BitVec.toNat_add, hplace]
    omega
  refine ⟨⟨by omega, by omega⟩, ?_⟩
  rw [← BitVec.toNat_inj, BitVec.toNat_add, BitVec.toNat_sub, hptr, hbase, BitVec.toNat_add]
  omega

end MemMapHelper

/-! ## Objects -/

/-- A manager and the objects that map its memory. -/
structure Windows : Type where
  /-- the manager -/
  manager : MemoryManager
  /-- where it is -/
  address : ℕ
  /-- the objects that have been constructed and not destroyed -/
  objects : ℕ → Option MemMapHelper
  /-- the windows that have been mapped -/
  mapped : List MemMapHelper
  /-- the calls of `unmap_memory` -/
  unmapped : List (Word × Word)

namespace Windows

/-- What happens to objects. -/
inductive Step : Windows → Windows → Prop where
  /-- an object is constructed -/
  | construct {w : Windows} {id fuel : ℕ} {phys length : Word} {type : MemoryType} {h : MemMapHelper}
      {s' : MemoryManager} : w.objects id = none → length ≠ 0 → phys.toNat + length.toNat ≤ 2 ^ 32 →
      MemMapHelper.construct w.manager fuel w.address phys length type = .done (h, s') →
        Step w ⟨s', w.address, Function.update w.objects id (some h), h :: w.mapped, w.unmapped⟩
  /-- an object is constructed from another one -/
  | moveConstruct {w : Windows} {id id' : ℕ} {type : MemoryType} {other : MemMapHelper} :
      w.objects id = none → w.objects id' = some other →
        Step w { w with
          objects := Function.update
            (Function.update w.objects id (some (MemMapHelper.moveConstruct type other).1))
            id' (some (MemMapHelper.moveConstruct type other).2) }
  /-- an object is assigned to another one, or to itself -/
  | moveAssign {w : Windows} {id id' : ℕ} {h other : MemMapHelper} :
      w.objects id = some h → w.objects id' = some other →
        Step w { w with
          objects := Function.update (Function.update w.objects id (some (h.moveAssign other).1))
            id' (some (h.moveAssign other).2) }
  /-- an object is destroyed -/
  | destroy {w : Windows} {id fuel : ℕ} {h : MemMapHelper} {s' : MemoryManager} :
      w.objects id = some h → h.destroy w.manager fuel w.address = .done s' →
        Step w ⟨s', w.address, Function.update w.objects id none, w.mapped,
          if h.length_ ≠ 0 then h.call :: w.unmapped else w.unmapped⟩
  /-- memory outside the tables changes -/
  | elsewhere {w : Windows} {s' : MemoryManager} : Elsewhere w.manager s' → Step w { w with manager := s' }

/-- An object owns a window. -/
def Owns (w : Windows) (id : ℕ) (h : MemMapHelper) : Prop := w.objects id = some h ∧ h.length_ ≠ 0

/-- A window has an owner. -/
def Live (w : Windows) (h : MemMapHelper) : Prop := ∃ id, w.Owns id h

/-- What `virt_to_phys` yields. -/
def translate (w : Windows) (v : Word) : Outcome Word := virtToPhys w.manager.mem w.manager.pml4_ v

/-- The free addresses of the manager are in one half, with room for the windows that it has records
for. -/
def FreeInHalf (s : MemoryManager) : Prop :=
  s.freeVirtBase_.toNat ≤ 2 ^ 46 + s.cur_ * 2 ^ 32 ∨ 2 ^ 64 - 2 ^ 47 ≤ s.freeVirtBase_.toNat

/-- The invariant of a run from `w₀`. -/
structure Inv (w₀ w : Windows) : Prop where
  /-- the manager is used with care -/
  careful : CarefullyReachable w.manager
  /-- its free addresses are in one half -/
  free : FreeInHalf w.manager
  /-- windows are below 4 GB -/
  below4Gb : ∀ h ∈ w.mapped, h.Below4Gb ∧ h.mm_ = w.address
  /-- and in allocated addresses -/
  allocated : ∀ h ∈ w.mapped, h.mappedVirt_.toNat + h.size.toNat ≤ w.manager.freeVirtBase_.toNat
  /-- they are different -/
  distinct : w.mapped.Pairwise fun h h' => h.mappedVirt_ ≠ h'.mappedVirt_
  /-- objects own windows -/
  owned : ∀ id h, w.Owns id h → h ∈ w.mapped
  /-- of which they are the only owner -/
  unique : ∀ id id' h, w.Owns id h → w.Owns id' h → id = id'
  /-- windows are unmapped -/
  calls : ∀ x ∈ w.unmapped, ∃ h ∈ w.mapped, h.call = x
  /-- once if they have no owner, else not -/
  once : ∀ h ∈ w.mapped, w.Live h ∧ w.unmapped.count h.call = 0 ∨ ¬ w.Live h ∧ w.unmapped.count h.call = 1
  /-- windows with an owner are recorded -/
  recorded : ∀ h, w.Live h → w.manager.HasMapping h.mappedVirt_ h.size
  /-- and show the pages of the range -/
  shown : ∀ h, w.Live h → ∀ v, InRange h.mappedVirt_ h.size v →
    w.translate v = .done (h.base + (v - h.mappedVirt_))
  /-- their addresses were not translated at the start -/
  unused : ∀ h, w.Live h → ∀ v, InRange h.mappedVirt_ h.size v → w₀.translate v = .abort
  /-- all other addresses are translated as at the start -/
  rest : ∀ v, Canonical v → (∀ h, w.Live h → ¬ InRange h.mappedVirt_ h.size v) →
    w.translate v = w₀.translate v

variable {w₀ w w' : Windows} {id id' fuel : ℕ} {h other : MemMapHelper}

/-! ## Owners -/

/-- A new object owns its window. -/
theorem owns_construct (hid : w.objects id = none) (hlength : h.length_ ≠ 0)
    (hobjects : w'.objects = Function.update w.objects id (some h)) (j : ℕ) (g : MemMapHelper) :
    w'.Owns j g ↔ j = id ∧ g = h ∨ w.Owns j g := by
  rw [Owns, Owns, hobjects]
  by_cases hj : j = id
  · subst hj
    rw [Function.update_self, hid]
    constructor
    · rintro ⟨heq, -⟩
      exact .inl ⟨rfl, (Option.some.inj heq).symm⟩
    · rintro (⟨-, rfl⟩ | ⟨hnone, -⟩)
      · exact ⟨rfl, hlength⟩
      · cases hnone
  · rw [Function.update_of_ne hj]
    constructor
    · exact .inr
    · rintro (⟨heq, -⟩ | howns)
      · exact absurd heq hj
      · exact howns

theorem live_construct (hid : w.objects id = none) (hlength : h.length_ ≠ 0)
    (hobjects : w'.objects = Function.update w.objects id (some h)) (g : MemMapHelper) :
    w'.Live g ↔ g = h ∨ w.Live g := by
  rw [Live]
  simp only [owns_construct hid hlength hobjects]
  constructor
  · rintro ⟨j, ⟨-, rfl⟩ | hj⟩
    · exact .inl rfl
    · exact .inr ⟨j, hj⟩
  · rintro (rfl | ⟨j, hj⟩)
    · exact ⟨id, .inl ⟨rfl, rfl⟩⟩
    · exact ⟨j, .inr hj⟩

/-- A destroyed object owns nothing. -/
theorem owns_destroy (hobjects : w'.objects = Function.update w.objects id none) (j : ℕ) (g : MemMapHelper) :
    w'.Owns j g ↔ j ≠ id ∧ w.Owns j g := by
  rw [Owns, Owns, hobjects]
  by_cases hj : j = id
  · subst hj
    rw [Function.update_self]
    constructor
    · rintro ⟨hnone, -⟩
      cases hnone
    · rintro ⟨hne, -⟩
      exact absurd rfl hne
  · rw [Function.update_of_ne hj]
    exact (and_iff_right hj).symm

/-- Its window has no owner left, since it was the only one. -/
theorem Inv.live_destroy (hinv : Inv w₀ w) (hown : w.Owns id h)
    (hobjects : w'.objects = Function.update w.objects id none) (g : MemMapHelper) :
    w'.Live g ↔ g ≠ h ∧ w.Live g := by
  rw [Live]
  simp only [owns_destroy hobjects]
  constructor
  · rintro ⟨j, hj, hg⟩
    refine ⟨?_, j, hg⟩
    rintro rfl
    exact hj (hinv.unique j id g hg hown)
  · rintro ⟨hne, j, hg⟩
    refine ⟨j, ?_, hg⟩
    rintro rfl
    exact hne (Option.some.inj (hg.1.symm.trans hown.1))

/-! ## Steps -/

/-- Objects change places. -/
theorem Inv.swap (hinv : Inv w₀ w) (hmanager : w'.manager = w.manager) (haddress : w'.address = w.address)
    (hmapped : w'.mapped = w.mapped)
    (hunmapped : w'.unmapped = w.unmapped) (σ : Equiv.Perm ℕ) (hσ : ∀ id h, w'.Owns id h ↔ w.Owns (σ id) h) :
    Inv w₀ w' := by
  have hlive (h : MemMapHelper) : w'.Live h ↔ w.Live h := by
    constructor
    · rintro ⟨id, hid⟩
      exact ⟨σ id, (hσ id h).mp hid⟩
    · rintro ⟨id, hid⟩
      refine ⟨σ.symm id, (hσ _ h).mpr ?_⟩
      rwa [Equiv.apply_symm_apply]
  have htranslate : w'.translate = w.translate := by
    funext v
    rw [translate, translate, hmanager]
  refine ⟨hmanager ▸ hinv.careful, hmanager ▸ hinv.free, ?_, ?_, hmapped ▸ hinv.distinct,
    ?_, ?_, ?_, ?_, ?_, ?_, ?_, ?_⟩
  · rw [hmapped, haddress]
    exact hinv.below4Gb
  · rw [hmapped, hmanager]
    exact hinv.allocated
  · intro id h hid
    rw [hmapped]
    exact hinv.owned _ h ((hσ id h).mp hid)
  · intro id id' h hid hid'
    exact σ.injective (hinv.unique _ _ h ((hσ id h).mp hid) ((hσ id' h).mp hid'))
  · rw [hmapped, hunmapped]
    exact hinv.calls
  · rw [hmapped, hunmapped]
    simp only [hlive]
    exact hinv.once
  · rw [hmanager]
    simp only [hlive]
    exact hinv.recorded
  · rw [htranslate]
    simp only [hlive]
    exact hinv.shown
  · simp only [hlive]
    exact hinv.unused
  · rw [htranslate]
    simp only [hlive]
    exact hinv.rest

/-- A moved object changes places with an empty one. -/
theorem Inv.moveConstruct {type : MemoryType} (hinv : Inv w₀ w) (hid : w.objects id = none)
    (hid' : w.objects id' = some other) :
    Inv w₀ { w with
      objects := Function.update
        (Function.update w.objects id (some (MemMapHelper.moveConstruct type other).1))
        id' (some (MemMapHelper.moveConstruct type other).2) } := by
  have hne : id ≠ id' := by
    rintro rfl
    rw [hid] at hid'
    cases hid'
  refine hinv.swap (by rfl) (by rfl) (by rfl) (by rfl) (Equiv.swap id id') ?_
  intro j h
  rw [Owns, Owns]
  dsimp only
  by_cases hj' : j = id'
  · subst hj'
    rw [Function.update_self, Equiv.swap_apply_right, hid]
    constructor
    · rintro ⟨hempty, hlength⟩
      cases hempty
      exact absurd rfl hlength
    · rintro ⟨hnone, -⟩
      cases hnone
  · by_cases hj : j = id
    · subst hj
      rw [Function.update_of_ne hj', Function.update_self, Equiv.swap_apply_left, hid']
      rfl
    · rw [Function.update_of_ne hj', Function.update_of_ne hj, Equiv.swap_apply_of_ne_of_ne hj hj']

/-- Assigned objects change places. -/
theorem Inv.moveAssign (hinv : Inv w₀ w) (hid : w.objects id = some h) (hid' : w.objects id' = some other) :
    Inv w₀ { w with
      objects := Function.update (Function.update w.objects id (some (h.moveAssign other).1))
        id' (some (h.moveAssign other).2) } := by
  refine hinv.swap (by rfl) (by rfl) (by rfl) (by rfl) (Equiv.swap id id') ?_
  intro j g
  rw [Owns, Owns]
  dsimp only
  by_cases hj' : j = id'
  · subst hj'
    rw [Function.update_self, Equiv.swap_apply_right, hid]
    rfl
  · by_cases hj : j = id
    · subst hj
      rw [Function.update_of_ne hj', Function.update_self, Equiv.swap_apply_left, hid']
      rfl
    · rw [Function.update_of_ne hj', Function.update_of_ne hj, Equiv.swap_apply_of_ne_of_ne hj hj']

/-- Changes elsewhere keep the windows. -/
theorem Inv.elsewhere {s' : MemoryManager} (hinv : Inv w₀ w) (he : Elsewhere w.manager s') :
    Inv w₀ { w with manager := s' } := by
  obtain ⟨level, l, ht, -⟩ := carefullyReachable_agree hinv.careful
  have htranslate : { w with manager := s' : Windows }.translate = w.translate := by
    funext v
    exact he.virtToPhys_eq ht
  have hbase : s'.freeVirtBase_ = w.manager.freeVirtBase_ := by rw [he.eq]
  have hcur : s'.cur_ = w.manager.cur_ := by rw [he.eq]
  refine ⟨hinv.careful.step (.elsewhere he), ?_, hinv.below4Gb, ?_, hinv.distinct, hinv.owned, hinv.unique, hinv.calls,
    hinv.once, ?_, ?_, hinv.unused, ?_⟩
  · rw [FreeInHalf, hbase, hcur]
    exact hinv.free
  · rw [hbase]
    exact hinv.allocated
  · intro h hlive
    exact he.hasMapping.mpr (hinv.recorded h hlive)
  · rw [htranslate]
    exact hinv.shown
  · rw [htranslate]
    exact hinv.rest

/-- The addresses of a window are allocated in one half. -/
theorem FreeInHalf.inHalf {s : MemoryManager} {length : Word} (hf : FreeInHalf s) (hlength : length.toNat ≤ 2 ^ 32)
    (hcur : s.cur_ + sizeofMemoryMapping ≤ 4096) (hwrap : s.freeVirtBase_.toNat + length.toNat < 2 ^ 64) :
    InHalf s.freeVirtBase_ length := by
  rw [sizeofMemoryMapping] at hcur
  rw [InHalf]
  obtain hlow | hhigh := hf
  · left
    omega
  · right
    omega

/-- **An object is constructed.** -/
theorem Inv.construct {phys length : Word} {type : MemoryType} {s' : MemoryManager} (hinv : Inv w₀ w)
    (hid : w.objects id = none) (hlength : length ≠ 0) (hle : phys.toNat + length.toNat ≤ 2 ^ 32)
    (hrun : MemMapHelper.construct w.manager fuel w.address phys length type = .done (h, s')) :
    Inv w₀ ⟨s', w.address, Function.update w.objects id (some h), h :: w.mapped, w.unmapped⟩ := by
  rw [MemMapHelper.construct] at hrun
  obtain ⟨⟨virt, s₁⟩, hmap, hrun⟩ := Outcome.bind_eq_done.mp hrun
  cases hrun
  set h : MemMapHelper := ⟨w.address, phys, length, type, virt⟩
  have hb : h.Below4Gb := ⟨hlength, hle⟩
  obtain ⟨hvirt, hbase, hcur, hroom⟩ := mapMemory_allocated hinv.careful hmap
  have hm := mapMemory_eq_done hmap
  have hhalf : InHalf virt h.size := by
    rw [hvirt]
    exact hinv.free.inHalf hb.size_le (hcur ▸ hroom) (hvirt ▸ hm.no_wrap)
  have hcareful : CarefullyReachable s' := hinv.careful.step (.map hmap hhalf)
  obtain ⟨level, l, ht, -⟩ := carefullyReachable_agree hinv.careful
  obtain ⟨hin, hout⟩ := hm.translates ht hhalf
  -- The window is new: the others are before it.
  have hpos : 0 < h.size.toNat := hb.size_pos
  have hbefore : ∀ g ∈ w.mapped, g.mappedVirt_ ≠ virt := by
    intro g hg heq
    have hend := hinv.allocated g hg
    have hsize := (hinv.below4Gb g hg).1.size_pos
    rw [heq, hvirt] at hend
    omega
  have hnew : ∀ g ∈ w.mapped, g ≠ h := by
    rintro g hg rfl
    exact hbefore _ hg rfl
  have howns (j : ℕ) (g : MemMapHelper) :
      Owns ⟨s', w.address, Function.update w.objects id (some h), h :: w.mapped, w.unmapped⟩ j g ↔
        j = id ∧ g = h ∨ w.Owns j g :=
    owns_construct hid hlength rfl j g
  have hlive (g : MemMapHelper) :
      Live ⟨s', w.address, Function.update w.objects id (some h), h :: w.mapped, w.unmapped⟩ g ↔ g = h ∨ w.Live g :=
    live_construct hid hlength rfl g
  have hrecords {a n : Word} := hasMapping_of_map (a := a) (n := n) hinv.careful hmap hhalf
  refine ⟨hcareful, ?_, ?_, ?_, ?_, ?_, ?_, ?_, ?_, ?_, ?_, ?_, ?_⟩
  · have hsize : (MemMapHelper.mappedLength phys length).toNat ≤ 2 ^ 32 := hb.size_le
    rw [FreeInHalf, hbase, hcur, sizeofMemoryMapping]
    obtain hlow | hhigh := hinv.free
    · left
      omega
    · right
      omega
  · intro g hg
    obtain rfl | hg := List.mem_cons.mp hg
    · exact ⟨hb, rfl⟩
    · exact hinv.below4Gb g hg
  · intro g hg
    rw [hbase]
    obtain rfl | hg := List.mem_cons.mp hg
    · rw [← hvirt]
      exact le_rfl
    · exact (hinv.allocated g hg).trans (Nat.le_add_right _ _)
  · exact List.pairwise_cons.mpr ⟨fun g hg => (hbefore g hg).symm, hinv.distinct⟩
  · intro j g hj
    obtain ⟨-, rfl⟩ | hj := (howns j g).mp hj
    · exact List.mem_cons_self
    · exact List.mem_cons_of_mem _ (hinv.owned j g hj)
  · intro j j' g hj hj'
    obtain ⟨rfl, rfl⟩ | hj := (howns j g).mp hj
    · obtain ⟨rfl, -⟩ | hj' := (howns j' _).mp hj'
      · rfl
      · exact absurd rfl (hnew _ (hinv.owned _ _ hj'))
    · obtain ⟨-, rfl⟩ | hj' := (howns j' g).mp hj'
      · exact absurd rfl (hnew _ (hinv.owned _ _ hj))
      · exact hinv.unique j j' g hj hj'
  · intro x hx
    obtain ⟨g, hg, rfl⟩ := hinv.calls x hx
    exact ⟨g, List.mem_cons_of_mem _ hg, rfl⟩
  · intro g hg
    rw [hlive]
    obtain rfl | hg := List.mem_cons.mp hg
    · refine .inl ⟨.inl rfl, ?_⟩
      rw [List.count_eq_zero]
      intro hcall
      obtain ⟨g, hg, heq⟩ := hinv.calls _ hcall
      exact hbefore g hg (congrArg Prod.fst heq)
    · rw [or_iff_right (hnew g hg)]
      exact hinv.once g hg
  · intro g hg
    obtain rfl | hg := (hlive g).mp hg
    · exact hrecords.1.mpr (.inl ⟨rfl, rfl⟩)
    · exact hrecords.1.mpr (.inr (hinv.recorded g hg))
  · intro g hg v hv
    obtain rfl | hg := (hlive g).mp hg
    · exact hin v hv
    · have hrec := hinv.recorded g hg
      have hcan := (hrec.inHalf hinv.careful).canonical hv
      exact (hout v hcan fun hv' => hrecords.2 hrec v hv' hv).trans (hinv.shown g hg v hv)
  · intro g hg v hv
    obtain rfl | hg := (hlive g).mp hg
    · have hcan := hhalf.canonical hv
      have hnone : w.translate v = .abort := by
        by_contra hne
        obtain ⟨a, n, hrec, hr⟩ := covered hinv.careful v hcan hne
        exact hrecords.2 hrec v hv hr
      rw [← hinv.rest v hcan fun g hg => hrecords.2 (hinv.recorded g hg) v hv, hnone]
    · exact hinv.unused g hg v hv
  · intro v hcan hv
    have hout' := hout v hcan (hv h ((hlive h).mpr (.inl rfl)))
    exact hout'.trans (hinv.rest v hcan fun g hg => hv g ((hlive g).mpr (.inr hg)))

/-- **An object is destroyed.** -/
theorem Inv.destroy {s' : MemoryManager} (hinv : Inv w₀ w) (hid : w.objects id = some h)
    (hrun : h.destroy w.manager fuel w.address = .done s') :
    Inv w₀ ⟨s', w.address, Function.update w.objects id none, w.mapped,
      if h.length_ ≠ 0 then h.call :: w.unmapped else w.unmapped⟩ := by
  rw [MemMapHelper.destroy] at hrun
  have howns (s' : MemoryManager) (calls : List (Word × Word)) (j : ℕ) (g : MemMapHelper) :
      Owns ⟨s', w.address, Function.update w.objects id none, w.mapped, calls⟩ j g ↔ j ≠ id ∧ w.Owns j g :=
    owns_destroy rfl j g
  split_ifs at hrun ⊢ with hlength
  · -- It owned a window, which is unmapped.
    obtain ⟨-, hunmap⟩ := Outcome.require_bind_eq_done.mp hrun
    have hown : w.Live h := ⟨id, hid, hlength⟩
    have hmem : h ∈ w.mapped := hinv.owned id h ⟨hid, hlength⟩
    have hwrap : h.mappedVirt_.toNat + h.size.toNat < 2 ^ 64 :=
      (hinv.allocated h hmem).trans_lt w.manager.freeVirtBase_.isLt
    have hrec := hinv.recorded h hown
    obtain ⟨hu, hcareful⟩ := hrec.unmaps hinv.careful hwrap hunmap
    obtain ⟨hbase, hcur⟩ := unmapMemory_keeps hinv.careful hunmap
    have hother {g : MemMapHelper} (hg : g ∈ w.mapped) (hne : g ≠ h) : g.mappedVirt_ ≠ h.mappedVirt_ := by
      have : Std.Symm fun h h' : MemMapHelper => h.mappedVirt_ ≠ h'.mappedVirt_ := ⟨fun _ _ hne => hne.symm⟩
      exact hinv.distinct.forall hg hmem hne
    have hlive (g : MemMapHelper) :
        Live ⟨s', w.address, Function.update w.objects id none, w.mapped, h.call :: w.unmapped⟩ g ↔
          g ≠ h ∧ w.Live g :=
      hinv.live_destroy ⟨hid, hlength⟩ rfl g
    have hapart {g : MemMapHelper} (hne : g ≠ h) (hg : w.Live g) :
        g.mappedVirt_ ≠ h.mappedVirt_ ∧ ∀ v, InRange g.mappedVirt_ g.size v → ¬ InRange h.mappedVirt_ h.size v := by
      obtain ⟨j, hj⟩ := hg
      have hvirt := hother (hinv.owned j g hj) hne
      exact ⟨hvirt, fun v hv => (hinv.recorded g ⟨j, hj⟩).apart hrec hinv.careful hvirt hv⟩
    refine ⟨hcareful, ?_, hinv.below4Gb, ?_, hinv.distinct, ?_, ?_, ?_, ?_, ?_, ?_, ?_, ?_⟩
    · rw [FreeInHalf, hbase, hcur]
      exact hinv.free
    · rw [hbase]
      exact hinv.allocated
    · intro j g hj
      exact hinv.owned j g ((howns _ _ j g).mp hj).2
    · intro j j' g hj hj'
      exact hinv.unique j j' g ((howns _ _ j g).mp hj).2 ((howns _ _ j' g).mp hj').2
    · intro x hx
      obtain rfl | hx := List.mem_cons.mp hx
      · exact ⟨h, hmem, rfl⟩
      · exact hinv.calls x hx
    · intro g hg
      rw [hlive]
      by_cases hne : g = h
      · subst hne
        obtain ⟨-, hcount⟩ | ⟨hdead, -⟩ := hinv.once g hg
        · refine .inr ⟨fun hlive => hlive.1 rfl, ?_⟩
          rw [List.count_cons_self, hcount]
        · exact absurd hown hdead
      · have hcall : h.call ≠ g.call := fun heq => hother hg hne (congrArg Prod.fst heq).symm
        rw [and_iff_right hne, List.count_cons_of_ne hcall]
        exact hinv.once g hg
    · intro g hg
      obtain ⟨hne, hg⟩ := (hlive g).mp hg
      exact hu.hasMapping (hinv.recorded g hg) fun heq => (hapart hne hg).1 heq.1
    · intro g hg v hv
      obtain ⟨hne, hg⟩ := (hlive g).mp hg
      have hcan := ((hinv.recorded g hg).inHalf hinv.careful).canonical hv
      exact (hu.2.2 v hcan ((hapart hne hg).2 v hv)).trans (hinv.shown g hg v hv)
    · intro g hg
      exact hinv.unused g ((hlive g).mp hg).2
    · intro v hcan hv
      by_cases hin : InRange h.mappedVirt_ h.size v
      · exact (hu.2.1 v hin).trans (hinv.unused h hown v hin).symm
      · refine (hu.2.2 v hcan hin).trans (hinv.rest v hcan ?_)
        intro g hg
        by_cases hne : g = h
        · exact hne ▸ hin
        · exact hv g ((hlive g).mpr ⟨hne, hg⟩)
  · -- It was empty.
    cases hrun
    refine hinv.swap (by rfl) (by rfl) (by rfl) (by rfl) (Equiv.refl ℕ) ?_
    intro j g
    rw [howns, Equiv.refl_apply, and_iff_right_iff_imp]
    rintro ⟨hg, hne⟩ rfl
    obtain rfl := Option.some.inj (hg.symm.trans hid)
    exact hlength hne

theorem Inv.step (hinv : Inv w₀ w) (hstep : Step w w') : Inv w₀ w' := by
  cases hstep with
  | construct hid hlength hle hrun => exact hinv.construct hid hlength hle hrun
  | moveConstruct hid hid' => exact hinv.moveConstruct hid hid'
  | moveAssign hid hid' => exact hinv.moveAssign hid hid'
  | destroy hid hrun => exact hinv.destroy hid hrun
  | elsewhere he => exact hinv.elsewhere he

/-! ## Runs -/

/-- No object has been constructed. The manager has been used with care, and it hands out addresses
of one half: those of a process start at 1 MB, those of the kernel 1 GB below it. -/
structure Start (w : Windows) : Prop where
  /-- used with care -/
  careful : CarefullyReachable w.manager
  /-- free addresses -/
  base : w.manager.freeVirtBase_.toNat ≤ 2 ^ 46 ∨ 2 ^ 64 - 2 ^ 47 ≤ w.manager.freeVirtBase_.toNat
  /-- no object -/
  objects : ∀ id, w.objects id = none
  /-- no window -/
  mapped : w.mapped = []
  /-- no call -/
  unmapped : w.unmapped = []

theorem Start.not_live (hs : Start w) (h : MemMapHelper) : ¬ w.Live h := by
  rintro ⟨id, hid, -⟩
  rw [hs.objects] at hid
  cases hid

theorem Start.inv (hs : Start w) : Inv w w := by
  have hmapped (h : MemMapHelper) : h ∉ w.mapped := by
    rw [hs.mapped]
    exact List.not_mem_nil
  refine ⟨hs.careful, ?_, fun h hh => absurd hh (hmapped h), fun h hh => absurd hh (hmapped h), ?_,
    fun id h hid => absurd ⟨id, hid⟩ (hs.not_live h), fun id _ h hid => absurd ⟨id, hid⟩ (hs.not_live h), ?_,
    fun h hh => absurd hh (hmapped h), fun h hh => absurd hh (hs.not_live h), fun h hh => absurd hh (hs.not_live h),
    fun h hh => absurd hh (hs.not_live h), fun v _ _ => rfl⟩
  · obtain hlow | hhigh := hs.base
    · exact .inl (hlow.trans (Nat.le_add_right _ _))
    · exact .inr hhigh
  · rw [hs.mapped]
    exact List.Pairwise.nil
  · rw [hs.unmapped]
    intro x hx
    cases hx

/-- What the windows are for. -/
structure Correct (w₀ w : Windows) : Prop where
  /-- an object that owns a window shows the physical addresses of the window -/
  shows : ∀ id h, w.Owns id h → h ∈ w.mapped ∧ ∀ i, i < h.length_ → w.translate (h.ptr + i) = .done (h.phys_ + i)
  /-- windows are at different addresses -/
  distinct : w.mapped.Pairwise fun h h' => h.mappedVirt_ ≠ h'.mappedVirt_
  /-- a window has one owner, or it has been unmapped once -/
  once : ∀ h ∈ w.mapped, (∃! id, w.Owns id h) ∧ w.unmapped.count h.call = 0 ∨
    (¬ ∃ id, w.Owns id h) ∧ w.unmapped.count h.call = 1
  /-- addresses outside the windows that have an owner are translated as at the start -/
  rest : ∀ v, Canonical v → (∀ id h, w.Owns id h → ¬ InRange h.mappedVirt_ h.size v) → w.translate v = w₀.translate v
  /-- all addresses are, if there are no objects -/
  restored : (∀ id, w.objects id = none) → ∀ v, w.translate v = w₀.translate v

theorem Inv.correct (hinv : Inv w₀ w) : Correct w₀ w := by
  have hrest (v : Word) (hcan : Canonical v) (hv : ∀ id h, w.Owns id h → ¬ InRange h.mappedVirt_ h.size v) :
      w.translate v = w₀.translate v := by
    apply hinv.rest v hcan
    rintro h ⟨id, hid⟩
    exact hv id h hid
  refine ⟨?_, hinv.distinct, ?_, hrest, ?_⟩
  · intro id h hid
    have hmem := hinv.owned id h hid
    refine ⟨hmem, ?_⟩
    intro i hi
    have hwrap := (hinv.allocated h hmem).trans_lt w.manager.freeVirtBase_.isLt
    obtain ⟨hin, hphys⟩ := (hinv.below4Gb h hmem).1.inRange hwrap hi
    rw [hinv.shown h ⟨id, hid⟩ _ hin, hphys]
  · intro h hmem
    obtain ⟨⟨id, hid⟩, hcount⟩ | hdead := hinv.once h hmem
    · exact .inl ⟨⟨id, hid, fun id' hid' => hinv.unique id' id h hid' hid⟩, hcount⟩
    · exact .inr hdead
  · intro hnone v
    obtain ⟨v', hcan, htranslate⟩ := exists_canonical v
    rw [translate, translate, htranslate, htranslate]
    apply hrest v' hcan
    rintro id h ⟨hid, -⟩
    rw [hnone] at hid
    cases hid

/-- **Windows are owned and unmapped as they should be** in every run. -/
theorem run_windows (hs : Start w₀) (hrun : Relation.ReflTransGen Step w₀ w) : Correct w₀ w := by
  suffices hinv : Inv w₀ w from hinv.correct
  induction hrun with
  | refl => exact hs.inv
  | tail _ hstep ih => exact ih.step hstep

/-- A manager without objects. -/
def noObjects (s : MemoryManager) : Windows := ⟨s, 1, fun _ => none, [], []⟩

/-- Map a page that is not aligned, move the window to another object and destroy both. -/
theorem run_windows_fresh : ∃ w, Relation.ReflTransGen Step (noObjects fresh) w ∧
    w.unmapped = [(0x40000000, 0x2000)] ∧ Correct (noObjects fresh) w := by
  obtain ⟨s₁, s₂, hmap, hunmap⟩ : ∃ s₁ s₂,
      MemMapHelper.construct fresh 10 1 0x8010 0x1000 MemoryType.read =
          .done (⟨1, 0x8010, 0x1000, MemoryType.read, 0x40000000⟩, s₁) ∧
        MemMapHelper.destroy ⟨1, 0x8010, 0x1000, MemoryType.read, 0x40000000⟩ s₁ 10 1 = .done s₂ := ⟨_, _, rfl, rfl⟩
  have hstart : Start (noObjects fresh) := ⟨.start fresh_init, .inl (by decide), fun _ => rfl, rfl, rfl⟩
  have hconstruct := Relation.ReflTransGen.single
    (@Step.construct (noObjects fresh) 0 10 _ _ _ _ _ rfl (by decide) (by decide) hmap)
  have hmove := hconstruct.tail (@Step.moveConstruct _ 1 0 0 _ rfl rfl)
  have hempty := hmove.tail (@Step.destroy _ 0 10 _ _ rfl rfl)
  have hdestroy := hempty.tail (@Step.destroy _ 1 10 _ _ rfl hunmap)
  exact ⟨_, hdestroy, rfl, run_windows hstart hdestroy⟩

end Windows

end Attos
