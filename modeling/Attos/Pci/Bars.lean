import Attos.Pci.ConfigSpace

/-!
# Base address registers

A base address register (BAR) holds an address and, in its low bits, what kind of address that is.
The low bits of the address and those of the kind are not writable: `read_bars` writes ones
everywhere, and reads the size of the BAR off the bits that stick (`probedSize`). It writes the old
value back, and every register is as before (`readBars_eq`).

An I/O BAR can leave its upper 16 bits at zero. They count as bits that do not stick, and the size
comes out too large by `0xffff0000`. All other sizes are right, and 64-bit BARs with an upper half
are refused (`readBars_lists_iff`).
-/

namespace Attos.Pci

open Lib

/-- `bar_is_io_mask` -/
def barIsIoMask : UInt32 := 0x01

/-- `bar_mem_type_mask` -/
def barMemTypeMask : UInt32 := 0x06

/-- `bar_mem_address_mask` -/
def barMemAddressMask : UInt64 := ~~~15

/-- `bar_io_address_mask` -/
def barIoAddressMask : UInt64 := ~~~3

/-- `bar_info` -/
structure BarInfo : Type where
  /-- the BAR with the bits of its kind -/
  address : UInt64
  /-- the size in bytes -/
  size : UInt64
  deriving DecidableEq

/-- The address without the bits of its kind. -/
def BarInfo.base (info : BarInfo) : UInt64 :=
  if info.address &&& barIsIoMask.toUInt64 ≠ 0 then info.address &&& barIoAddressMask
  else info.address &&& barMemAddressMask

theorem BarInfo.base_zero (size : UInt64) : (⟨0, size⟩ : BarInfo).base = 0 := by
  rw [BarInfo.base, UInt64.zero_and, if_neg (not_not.mpr rfl), UInt64.zero_and]

/-- The size that the probe of a register yields, from the value that it had and the one that is
read after all ones were written. -/
def probedSize (orig barSize : UInt32) : UInt64 :=
  let masked :=
    if orig &&& barIsIoMask ≠ 0 then (barSize.toUInt64 &&& barIoAddressMask).toUInt32
    else (barSize.toUInt64 &&& barMemAddressMask).toUInt32
  (~~~masked + 1).toUInt64

/-- The loop of `read_bars` from the BAR `i` on. -/
def readBarsLoop (addr : DeviceAddress) : ℕ → ℕ → ConfigSpace → List BarInfo → Outcome (List BarInfo × ConfigSpace)
  | 0, _, _, _ => .running
  | fuel + 1, i, space, res =>
    if i < 6 then do
      let reg := 4 + i
      let orig ← readConfigDword space addr reg
      if orig = 0 then readBarsLoop addr fuel (i + 1) space res
      else do
        let space ← writeConfigDword space addr reg (~~~0)
        let barSize ← readConfigDword space addr reg
        let space ← writeConfigDword space addr reg orig
        let res := res ++ [⟨orig.toUInt64, probedSize orig barSize⟩]
        if orig &&& barIsIoMask = 0 ∧ orig &&& barMemTypeMask ≠ 0 then do
          Outcome.require (orig &&& barMemTypeMask = 0x4)
          Outcome.require (i ≠ 5)
          let extra ← readConfigDword space addr (reg + 1)
          let space ← writeConfigDword space addr (reg + 1) (~~~0)
          let sticky ← readConfigDword space addr (reg + 1)
          let space ← writeConfigDword space addr (reg + 1) extra
          Outcome.require (extra = 0)
          Outcome.require (~~~sticky = 0)
          readBarsLoop addr fuel (i + 2) space res
        else readBarsLoop addr fuel (i + 1) space res
    else .done (res, space)

/-- `read_bars`: the array has six elements, and those that are not used are zero. -/
def readBars (space : ConfigSpace) (addr : DeviceAddress) : Outcome (List BarInfo × ConfigSpace) := do
  let (res, space) ← readBarsLoop addr 7 0 space []
  pure (res ++ List.replicate (6 - res.length) ⟨0, 0⟩, space)

/-! ## Kinds of BARs -/

/-- The address bits of `2 ^ bits` bytes that can be changed. -/
def addressMask (bits : ℕ) : UInt64 := 0 - (1 : UInt64) <<< UInt64.ofNat bits

/-- What a BAR is for. -/
inductive BarKind : Type where
  /-- there is none -/
  | unimplemented
  /-- memory with a 32-bit address, or one below 1 MB -/
  | mem32 (bits : Fin 28) (below1Mb prefetchable : Bool)
  /-- memory with a 64-bit address -/
  | mem64 (bits : Fin 60) (prefetchable : Bool)
  /-- ports, of which 16 bits are decoded -/
  | io16 (bits : Fin 14)
  /-- ports, of which 32 bits are decoded -/
  | io32 (bits : Fin 30)
  deriving DecidableEq

namespace BarKind

/-- The address bits that can be changed. -/
def mask : BarKind → UInt64
  | unimplemented => 0
  | mem32 bits _ _ => addressMask (bits.val + 4) &&& 0xffffffff
  | mem64 bits _ => addressMask (bits.val + 4)
  | io16 bits => addressMask (bits.val + 2) &&& 0xffff
  | io32 bits => addressMask (bits.val + 2) &&& 0xffffffff

/-- The bits of the kind. -/
def type : BarKind → UInt32
  | unimplemented => 0
  | mem32 _ below1Mb prefetchable => (if below1Mb then 2 else 0) ||| (if prefetchable then 8 else 0)
  | mem64 _ prefetchable => 4 ||| (if prefetchable then 8 else 0)
  | io16 _ => 1
  | io32 _ => 1

/-- The size in bytes. -/
def size : BarKind → UInt64
  | unimplemented => 0
  | mem32 bits _ _ => 1 <<< UInt64.ofNat (bits.val + 4)
  | mem64 bits _ => 1 <<< UInt64.ofNat (bits.val + 4)
  | io16 bits => 1 <<< UInt64.ofNat (bits.val + 2)
  | io32 bits => 1 <<< UInt64.ofNat (bits.val + 2)

/-- The number of registers. -/
def width : BarKind → ℕ
  | mem64 .. => 2
  | _ => 1

/-- Only 16 bits of the port are decoded. -/
def isIo16 : BarKind → Bool
  | io16 _ => true
  | _ => false

/-- The low bits that are not part of the address. -/
def flags (k : BarKind) : UInt32 := if k.type &&& barIsIoMask ≠ 0 then 3 else 15

/-- What the probe of the lower register yields. -/
def probed (k : BarKind) : UInt64 := (~~~((k.mask.toUInt32 ||| k.type) &&& ~~~k.flags) + 1).toUInt64

/-- It says that it is below 1 MB. -/
def isBelow1Mb : BarKind → Bool
  | mem32 _ below1Mb _ => below1Mb
  | _ => false

theorem forall_iff {p : BarKind → Prop} : (∀ k, p k) ↔ p unimplemented ∧
    (∀ bits below1Mb prefetchable, p (mem32 bits below1Mb prefetchable)) ∧
    (∀ bits prefetchable, p (mem64 bits prefetchable)) ∧ (∀ bits, p (io16 bits)) ∧ ∀ bits, p (io32 bits) := by
  constructor
  · intro h
    exact ⟨h _, fun _ _ _ => h _, fun _ _ => h _, fun _ => h _, fun _ => h _⟩
  · intro h k
    obtain ⟨hu, hm32, hm64, hi16, hi32⟩ := h
    cases k with
    | unimplemented => exact hu
    | mem32 bits below1Mb prefetchable => exact hm32 bits below1Mb prefetchable
    | mem64 bits prefetchable => exact hm64 bits prefetchable
    | io16 bits => exact hi16 bits
    | io32 bits => exact hi32 bits

/-- There are finitely many kinds. -/
instance {p : BarKind → Prop} [DecidablePred p] : Decidable (∀ k, p k) := decidable_of_iff _ forall_iff.symm

theorem mask_and_flags : ∀ k : BarKind, k.mask.toUInt32 &&& k.flags = 0 := by decide

theorem type_and_not_flags : ∀ k : BarKind, k.type &&& ~~~k.flags = 0 := by decide

theorem width_cases : ∀ k : BarKind, k.width = 1 ∨ k.width = 2 := by decide

/-- The bits of the kind that `read_bars` takes for those of a 64-bit BAR. -/
theorem type_of_below1Mb : ∀ k : BarKind, k.isBelow1Mb = true →
    k.type &&& barIsIoMask = 0 ∧ k.type &&& barMemTypeMask = 2 := by decide

theorem type_of_width_two : ∀ k : BarKind, k.width = 2 →
    k.type &&& barIsIoMask = 0 ∧ k.type &&& barMemTypeMask = 4 ∧
      (~~~(k.mask >>> 32).toUInt32 = 0 ↔ k.size.toNat ≤ 2 ^ 32) := by decide

theorem type_of_width_one : ∀ k : BarKind, k.width = 1 → k.isBelow1Mb = false →
    ¬ (k.type &&& barIsIoMask = 0 ∧ k.type &&& barMemTypeMask ≠ 0) := by decide

/-- Addresses that do not need the upper half. -/
theorem mask_of_width_one : ∀ k : BarKind, k.width = 1 → k.mask.toNat < 2 ^ 32 := by decide

/-- **The size of an I/O BAR with 16 bits** comes out too large. -/
theorem probed_of_io16 : ∀ k : BarKind, k.isIo16 = true → k.probed = k.size + 0xffff0000 := by decide

/-- **The other sizes are right**, except where no address bit is in the lower register. -/
theorem probed_eq : ∀ k : BarKind, k.isIo16 = false → k.mask.toUInt32 ≠ 0 → k.probed = k.size := by decide

end BarKind

/-- A BAR of a function. -/
structure Bar : Type where
  /-- what it is for -/
  kind : BarKind
  /-- what was last written to it -/
  written : UInt64

namespace Bar

/-- The base address. -/
def base (b : Bar) : UInt64 := b.written &&& b.kind.mask

/-- The register with the low half of the address. -/
def low (b : Bar) : Register := ⟨b.base.toUInt32 ||| b.kind.type, b.kind.mask.toUInt32⟩

/-- The register with the high half. -/
def high (b : Bar) : Register := ⟨(b.base >>> 32).toUInt32, (b.kind.mask >>> 32).toUInt32⟩

/-- What `read_bars` finds out about a BAR. -/
def info (b : Bar) : BarInfo := ⟨b.low.value.toUInt64, b.kind.probed⟩

/-- What `read_bars` lists for a BAR. -/
def listed (b : Bar) : List BarInfo := if b.low.value = 0 then [] else [b.info]

/-- BARs that `read_bars` refuses: those below 1 MB, and those with a base address or a size that
needs the upper half of a 64-bit address. -/
def Unsupported (b : Bar) : Prop :=
  b.kind.isBelow1Mb = true ∨ b.kind.width = 2 ∧ (2 ^ 32 ≤ b.base.toNat ∨ 2 ^ 32 < b.kind.size.toNat)

instance : DecidablePred Unsupported := fun b =>
  inferInstanceAs (Decidable (b.kind.isBelow1Mb = true ∨
    b.kind.width = 2 ∧ (2 ^ 32 ≤ b.base.toNat ∨ 2 ^ 32 < b.kind.size.toNat)))

variable {b : Bar}

theorem base_and_mask (b : Bar) : b.base &&& b.kind.mask = b.base := by
  rw [base, UInt64.and_assoc, UInt64.and_self]

theorem or_and (x y t : UInt32) : (x ||| y) &&& t = (x &&& t) ||| (y &&& t) :=
  UInt32.toBitVec_inj.1 BitVec.and_or_distrib_right

theorem or_and_self (m x : UInt32) : m ||| (x &&& m) = m := by
  apply UInt32.eq_of_toBitVec_eq
  ext i hi
  simp only [UInt32.toBitVec_or, UInt32.toBitVec_and, BitVec.getElem_or, BitVec.getElem_and]
  cases m.toBitVec[i] <;> simp

theorem low_value_eq (b : Bar) : b.low.value = b.base.toUInt32 ||| b.kind.type := rfl

theorem base_and_flags (b : Bar) : b.base.toUInt32 &&& b.kind.flags = 0 := by
  rw [← base_and_mask, UInt64.toUInt32_and, UInt32.and_assoc, BarKind.mask_and_flags, UInt32.and_zero]

/-- The low bits are those of the kind. -/
theorem low_value_and (b : Bar) : b.low.value &&& b.kind.flags = b.kind.type &&& b.kind.flags := by
  rw [low_value_eq, or_and, base_and_flags, UInt32.zero_or]

/-- The other bits are those of the address. -/
theorem low_value_and_not (b : Bar) : b.low.value &&& ~~~b.kind.flags = b.base.toUInt32 := by
  have h : b.base.toUInt32 = (b.base.toUInt32 &&& b.kind.flags) ||| (b.base.toUInt32 &&& ~~~b.kind.flags) := by
    rw [UInt32.and_comm, UInt32.and_comm _ (~~~b.kind.flags), ← or_and]
    apply UInt32.eq_of_toBitVec_eq
    ext i hi
    simp
  rw [base_and_flags, UInt32.zero_or] at h
  rw [low_value_eq, or_and, BarKind.type_and_not_flags, UInt32.or_zero, ← h]

theorem isIo_eq (b : Bar) : b.low.value &&& barIsIoMask = b.kind.type &&& barIsIoMask := by
  have h : barIsIoMask = b.kind.flags &&& barIsIoMask := by
    rw [BarKind.flags]
    split_ifs <;> decide
  rw [h, ← UInt32.and_assoc, ← UInt32.and_assoc, low_value_and]

theorem type_eq (b : Bar) (h : b.kind.type &&& barIsIoMask = 0) :
    b.low.value &&& barMemTypeMask = b.kind.type &&& barMemTypeMask := by
  have h : barMemTypeMask = b.kind.flags &&& barMemTypeMask := by
    rw [BarKind.flags, if_neg (not_not.mpr h)]
    decide
  rw [h, ← UInt32.and_assoc, ← UInt32.and_assoc, low_value_and]

/-- The bits that stick in the lower register are those of the mask and of the kind. -/
theorem low_write_value (b : Bar) : (b.low.write (~~~0)).value = b.kind.mask.toUInt32 ||| b.kind.type := by
  rw [Register.write_ones, low_value_eq, ← base_and_mask, UInt64.toUInt32_and, ← UInt32.or_assoc]
  exact congrArg (· ||| b.kind.type) (or_and_self _ _)

/-- The bits that stick in the upper register are those of the mask. -/
theorem high_write_value (b : Bar) : (b.high.write (~~~0)).value = (b.kind.mask >>> 32).toUInt32 := by
  rw [Register.write_ones, high, ← base_and_mask]
  have h : ((b.base &&& b.kind.mask) >>> 32).toUInt32 = (b.base >>> 32).toUInt32 &&& (b.kind.mask >>> 32).toUInt32 := by
    rw [UInt64.shiftRight_and, UInt64.toUInt32_and]
  rw [h, or_and_self]

/-- What the probe of the lower register yields. -/
theorem probedSize_low (b : Bar) : probedSize b.low.value (b.low.write (~~~0)).value = b.kind.probed := by
  rw [probedSize, low_write_value, isIo_eq, BarKind.probed, BarKind.flags]
  split_ifs with h
  · rw [UInt64.toUInt32_and, UInt32.toUInt32_toUInt64]
    rfl
  · rw [UInt64.toUInt32_and, UInt32.toUInt32_toUInt64]
    rfl

theorem high_value_eq_zero : b.high.value = 0 ↔ b.base.toNat < 2 ^ 32 := by
  rw [high, ← UInt32.toNat_inj, UInt64.toNat_toUInt32, UInt64.toNat_shiftRight]
  have h := b.base.toNat_lt
  simp only [UInt32.toNat_zero, UInt64.reduceToNat, Nat.reduceMod, Nat.shiftRight_eq_div_pow]
  omega

/-- The base address of a BAR that is not refused has 32 bits. -/
theorem base_lt (h : ¬ b.Unsupported) : b.base.toNat < 2 ^ 32 := by
  rw [Unsupported, not_or, not_and, not_or, not_le, not_lt] at h
  obtain hw | hw := b.kind.width_cases
  · rw [base, UInt64.toNat_and]
    exact Nat.and_le_right.trans_lt (b.kind.mask_of_width_one hw)
  · exact (h.2 hw).1

theorem toUInt64_and (x : UInt32) (m : UInt64) : x.toUInt64 &&& m = (x &&& m.toUInt32).toUInt64 := by
  have hx : x.toNat < 2 ^ 32 := x.toNat_lt
  apply UInt64.toNat_inj.mp
  rw [UInt64.toNat_and, UInt32.toNat_toUInt64, UInt32.toNat_toUInt64, UInt32.toNat_and, UInt64.toNat_toUInt32]
  calc x.toNat &&& m.toNat
      = (x.toNat &&& m.toNat) % 2 ^ 32 := (Nat.mod_eq_of_lt (Nat.and_le_left.trans_lt hx)).symm
    _ = x.toNat &&& m.toNat % 2 ^ 32 := by rw [Nat.and_mod_two_pow, Nat.mod_eq_of_lt hx]

/-- The listed address is the base address with the bits of the kind. -/
theorem info_base (h : ¬ b.Unsupported) : b.info.base = b.base := by
  have hbase : b.base.toUInt32.toUInt64 = b.base := by
    rw [← UInt64.toNat_inj, UInt32.toNat_toUInt64, UInt64.toNat_toUInt32, Nat.mod_eq_of_lt (base_lt h)]
  have hnot := b.low_value_and_not
  rw [BarKind.flags] at hnot
  have hio : b.low.value.toUInt64 &&& barIsIoMask.toUInt64 ≠ 0 ↔ b.kind.type &&& barIsIoMask ≠ 0 := by
    rw [← UInt32.toUInt64_and, isIo_eq, ne_eq, ne_eq, ← UInt64.toNat_inj, ← UInt32.toNat_inj, UInt32.toNat_toUInt64]
    rfl
  rw [BarInfo.base, info]
  simp only [hio]
  split_ifs at hnot ⊢ with h
  · rw [toUInt64_and]
    exact (congrArg UInt32.toUInt64 hnot).trans hbase
  · rw [toUInt64_and]
    exact (congrArg UInt32.toUInt64 hnot).trans hbase

/-- A BAR with a base address is listed with the size that the probe yields. -/
theorem listed_filter (h : ¬ b.Unsupported) :
    (b.listed.filter fun info => info.base ≠ 0).map (fun info => (info.base, info.size)) =
      if b.base = 0 then [] else [(b.base, b.kind.probed)] := by
  rw [listed]
  by_cases h0 : b.low.value = 0
  · have hbase : b.base = 0 := by
      rw [← info_base h, info, h0]
      exact BarInfo.base_zero _
    rw [if_pos h0, if_pos hbase]
    rfl
  · rw [if_neg h0, ← info_base h]
    by_cases hbase : b.info.base = 0
    · simp [hbase]
    · simp [hbase]
      rfl

/-- The registers that `read_bars` reads for a BAR hold it. -/
def At (b : Bar) (space : ConfigSpace) (addr : DeviceAddress) (reg : ℕ) : Prop :=
  space addr reg = b.low ∧ (b.kind.width = 2 → space addr (reg + 1) = b.high)

end Bar

/-- The function has these BARs, one after the other from the `i`th of its six registers on. -/
def Follows (space : ConfigSpace) (addr : DeviceAddress) : ℕ → List Bar → Prop
  | i, [] => i = 6
  | i, b :: bars => b.At space addr (4 + i) ∧ Follows space addr (i + b.kind.width) bars

section Loop

variable {addr : DeviceAddress} {fuel i : ℕ} {space : ConfigSpace} {res : List BarInfo} {b : Bar} {bars : List Bar}

theorem Follows.le (h : Follows space addr i bars) : i ≤ 6 := by
  induction bars generalizing i with
  | nil => exact h.le
  | cons b bars ih => exact (Nat.le_add_right _ _).trans (ih h.2)

/-- A register that reads zero is left out. -/
theorem readBarsLoop_zero (hi : i < 6) (h : (space addr (4 + i)).value = 0) :
    readBarsLoop addr (fuel + 1) i space res = readBarsLoop addr fuel (i + 1) space res := by
  have hreg : 4 + i < configAreaNumDwords := by
    rw [configAreaNumDwords]
    omega
  rw [readBarsLoop, if_pos hi]
  simp only [readConfigDword_eq hreg, Outcome.done_bind]
  rw [if_pos h]

/-- The probe of another register. -/
theorem readBarsLoop_probe (hi : i < 6) (h : (space addr (4 + i)).value ≠ 0) :
    readBarsLoop addr (fuel + 1) i space res =
      let r := space addr (4 + i)
      let res := res ++ [⟨r.value.toUInt64, probedSize r.value (r.write (~~~0)).value⟩]
      if r.value &&& barIsIoMask = 0 ∧ r.value &&& barMemTypeMask ≠ 0 then do
        Outcome.require (r.value &&& barMemTypeMask = 0x4)
        Outcome.require (i ≠ 5)
        Outcome.require ((space addr (4 + i + 1)).value = 0)
        Outcome.require (~~~((space addr (4 + i + 1)).write (~~~0)).value = 0)
        readBarsLoop addr fuel (i + 2) space res
      else readBarsLoop addr fuel (i + 1) space res := by
  have hreg : 4 + i < configAreaNumDwords := by
    rw [configAreaNumDwords]
    omega
  have hreg' : 4 + i + 1 < configAreaNumDwords := by
    rw [configAreaNumDwords]
    omega
  rw [readBarsLoop, if_pos hi]
  simp only [readConfigDword_eq hreg, writeConfigDword_eq hreg, readConfigDword_eq hreg', writeConfigDword_eq hreg',
    Outcome.done_bind, set_self, set_restore]
  rw [if_neg h]

/-- **The loop restores the registers**, whatever they are. -/
theorem readBarsLoop_space {space' : ConfigSpace} {res' : List BarInfo}
    (h : readBarsLoop addr fuel i space res = .done (res', space')) : space' = space := by
  induction fuel generalizing i res with
  | zero => cases h
  | succ fuel ih =>
    by_cases hi : i < 6
    · by_cases h0 : (space addr (4 + i)).value = 0
      · rw [readBarsLoop_zero hi h0] at h
        exact ih h
      · rw [readBarsLoop_probe hi h0] at h
        dsimp only at h
        split_ifs at h with hc
        · simp only [Outcome.require_bind_eq_done] at h
          exact ih h.2.2.2.2
        · exact ih h
    · rw [readBarsLoop, if_neg hi] at h
      cases h
      rfl

theorem readBarsLoop_ends (hi : i ≤ 6) (hfuel : 6 < i + fuel) : (readBarsLoop addr fuel i space res).Ends := by
  induction fuel generalizing i res with
  | zero => omega
  | succ fuel ih =>
    by_cases hi : i < 6
    · by_cases h0 : (space addr (4 + i)).value = 0
      · rw [readBarsLoop_zero hi h0]
        exact ih (by omega) (by omega)
      · rw [readBarsLoop_probe hi h0]
        dsimp only
        split_ifs
        · refine Outcome.require_ends.bind fun _ _ => Outcome.require_ends.bind fun _ h5 => ?_
          refine Outcome.require_ends.bind fun _ _ => Outcome.require_ends.bind fun _ _ => ?_
          rw [Outcome.require_eq_done] at h5
          exact ih (by omega) (by omega)
        · exact ih (by omega) (by omega)
    · rw [readBarsLoop, if_neg hi]
      exact Outcome.done_ends _

/-- A BAR that is not refused. -/
theorem readBarsLoop_supported (hb : b.At space addr (4 + i)) (hi : i + b.kind.width ≤ 6) (h : ¬ b.Unsupported) :
    readBarsLoop addr (fuel + 1) i space res =
      readBarsLoop addr fuel (i + b.kind.width) space (res ++ b.listed) := by
  rw [Bar.listed]
  obtain ⟨hlow, hhigh⟩ := hb
  rw [Bar.Unsupported, not_or, not_and, not_or, not_le, not_lt] at h
  obtain hw | hw := b.kind.width_cases
  · have hone := BarKind.type_of_width_one _ hw (Bool.eq_false_of_not_eq_true h.1)
    rw [hw] at hi ⊢
    by_cases h0 : b.low.value = 0
    · rw [readBarsLoop_zero (by omega) (hlow ▸ h0), if_pos h0, List.append_nil]
    · rw [readBarsLoop_probe (by omega) (hlow ▸ h0), if_neg h0]
      simp only [hlow]
      have hscalar : ¬ (b.low.value &&& barIsIoMask = 0 ∧ b.low.value &&& barMemTypeMask ≠ 0) := by
        intro hc
        apply hone
        rw [← Bar.type_eq b (b.isIo_eq ▸ hc.1), ← b.isIo_eq]
        exact hc
      rw [if_neg hscalar, Bar.probedSize_low, Bar.info]
  · obtain ⟨hio, htype, hmask⟩ := BarKind.type_of_width_two _ hw
    obtain ⟨hbase, hsize⟩ := h.2 hw
    rw [hw] at hi ⊢
    have htype' : b.low.value &&& barMemTypeMask = 4 := by
      rw [Bar.type_eq b hio, htype]
    have h0 : b.low.value ≠ 0 := by
      intro h0
      rw [h0] at htype'
      exact absurd htype' (by decide)
    rw [readBarsLoop_probe (by omega) (hlow ▸ h0), if_neg h0]
    simp only [hlow, hhigh hw]
    rw [b.isIo_eq, if_pos ⟨hio, by rw [htype']; decide⟩, Outcome.require_pos htype', Outcome.require_pos (by omega),
      Outcome.require_pos (Bar.high_value_eq_zero.mpr hbase), Bar.high_write_value,
      Outcome.require_pos (hmask.mpr hsize), Bar.probedSize_low, Bar.info]
    rfl

/-- A BAR that is refused. -/
theorem readBarsLoop_unsupported (hb : b.At space addr (4 + i)) (hi : i + b.kind.width ≤ 6) (h : b.Unsupported) :
    readBarsLoop addr (fuel + 1) i space res = .abort := by
  obtain ⟨hlow, hhigh⟩ := hb
  -- Both kinds say that they are not 32-bit BARs, so the second half of the loop body runs.
  have hprobe {t : UInt32} (hio : b.kind.type &&& barIsIoMask = 0) (ht : b.kind.type &&& barMemTypeMask = t)
      (ht0 : t ≠ 0) : b.low.value &&& barMemTypeMask = t ∧ b.low.value ≠ 0 := by
    have htype : b.low.value &&& barMemTypeMask = t := by
      rw [Bar.type_eq b hio, ht]
    refine ⟨htype, ?_⟩
    intro h0
    rw [h0, UInt32.zero_and] at htype
    exact ht0 htype.symm
  have hw : 0 < b.kind.width := by
    obtain hw | hw := b.kind.width_cases <;> omega
  obtain hbelow | ⟨hw, hlarge⟩ := h
  · obtain ⟨hio, ht⟩ := BarKind.type_of_below1Mb _ hbelow
    obtain ⟨htype, h0⟩ := hprobe hio ht (by decide)
    rw [readBarsLoop_probe (by omega) (hlow ▸ h0)]
    simp only [hlow]
    rw [b.isIo_eq, if_pos ⟨hio, by rw [htype]; decide⟩, Outcome.require_neg (by rw [htype]; decide)]
    rfl
  · obtain ⟨hio, ht, hmask⟩ := BarKind.type_of_width_two _ hw
    obtain ⟨htype, h0⟩ := hprobe hio ht (by decide)
    rw [readBarsLoop_probe (by omega) (hlow ▸ h0)]
    simp only [hlow, hhigh hw]
    rw [b.isIo_eq, if_pos ⟨hio, by rw [htype]; decide⟩, Outcome.require_pos htype, Outcome.require_pos (by omega),
      Bar.high_write_value]
    obtain hbase | hsize := hlarge
    · rw [Outcome.require_neg (Bar.high_value_eq_zero.not.mpr (not_lt.mpr hbase))]
      rfl
    · rw [Outcome.require_neg (hmask.not.mpr (not_le.mpr hsize))]
      by_cases hv : b.high.value = 0
      · rw [Outcome.require_pos hv]
        rfl
      · rw [Outcome.require_neg hv]
        rfl

/-- **The loop restores the registers and lists the BARs.** -/
theorem readBarsLoop_eq (hb : Follows space addr i bars) (hfuel : 6 < i + fuel) (h : ∀ b ∈ bars, ¬ b.Unsupported) :
    readBarsLoop addr fuel i space res = .done (res ++ bars.flatMap Bar.listed, space) := by
  induction bars generalizing i fuel res with
  | nil =>
    obtain rfl : i = 6 := hb
    cases fuel with
    | zero => omega
    | succ fuel =>
      rw [readBarsLoop, if_neg (by omega), List.flatMap_nil, List.append_nil]
  | cons b bars ih =>
    have hi := hb.2.le
    have hw := b.kind.width_cases
    cases fuel with
    | zero => omega
    | succ fuel =>
      rw [readBarsLoop_supported hb.1 hi (h b List.mem_cons_self),
        ih hb.2 (by omega) fun b hmem => h b (List.mem_cons_of_mem _ hmem), List.append_assoc, List.flatMap_cons]

/-- A function with a BAR that is refused. -/
theorem readBarsLoop_abort (hb : Follows space addr i bars) (hfuel : 6 < i + fuel) (h : ∃ b ∈ bars, b.Unsupported) :
    readBarsLoop addr fuel i space res = .abort := by
  induction bars generalizing i fuel res with
  | nil =>
    obtain ⟨b, hmem, -⟩ := h
    cases hmem
  | cons b bars ih =>
    have hi := hb.2.le
    have hw := b.kind.width_cases
    cases fuel with
    | zero => omega
    | succ fuel =>
      by_cases hb' : b.Unsupported
      · exact readBarsLoop_unsupported hb.1 hi hb'
      · obtain ⟨c, hmem, hc⟩ := h
        obtain rfl | hmem := List.mem_cons.mp hmem
        · exact absurd hc hb'
        · rw [readBarsLoop_supported hb.1 hi hb', ih hb.2 (by omega) ⟨c, hmem, hc⟩]

end Loop

/-- If `read_bars` returns, the registers have their values again, and the BARs with a base address
are listed with their sizes. -/
def BarsFound (space : ConfigSpace) (addr : DeviceAddress) (bars : List Bar) : Prop :=
  ∀ res space', readBars space addr = .done (res, space') → space' = space ∧
    (res.filter fun info => info.base ≠ 0).map (fun info => (info.base, info.size)) =
      (bars.filter fun b => b.base ≠ 0).map fun b => (b.base, b.kind.size)

section Function

variable {space : ConfigSpace} {addr : DeviceAddress} {bars : List Bar}

/-- **`read_bars` restores the registers**, whatever they are. -/
theorem readBars_space {space' : ConfigSpace} {res : List BarInfo} (h : readBars space addr = .done (res, space')) :
    space' = space := by
  obtain ⟨⟨res', space''⟩, hloop, h⟩ := Outcome.bind_eq_done.mp h
  cases h
  exact readBarsLoop_space hloop

theorem readBars_ends : (readBars space addr).Ends :=
  (readBarsLoop_ends (by decide) (by decide)).bind fun _ _ => Outcome.done_ends _

theorem readBars_abort (hb : Follows space addr 0 bars) (h : ∃ b ∈ bars, b.Unsupported) :
    readBars space addr = .abort := by
  rw [readBars, readBarsLoop_abort hb (by decide) h]
  rfl

theorem readBars_eq (hb : Follows space addr 0 bars) (h : ∀ b ∈ bars, ¬ b.Unsupported) :
    readBars space addr = .done (bars.flatMap Bar.listed ++
      List.replicate (6 - (bars.flatMap Bar.listed).length) ⟨0, 0⟩, space) := by
  rw [readBars, readBarsLoop_eq hb (by decide) h]
  rfl

/-- The listed BARs with a base address, with the sizes that the probes yield. -/
theorem filter_listed (h : ∀ b ∈ bars, ¬ b.Unsupported) :
    ((bars.flatMap Bar.listed).filter fun info => info.base ≠ 0).map (fun info => (info.base, info.size)) =
      (bars.filter fun b => b.base ≠ 0).map fun b => (b.base, b.kind.probed) := by
  induction bars with
  | nil => rfl
  | cons b bars ih =>
    rw [List.flatMap_cons, List.filter_append, List.map_append, ih fun c hc => h c (List.mem_cons_of_mem _ hc),
      Bar.listed_filter (h b List.mem_cons_self)]
    by_cases hbase : b.base = 0 <;> simp [hbase]

/-- The size of a BAR with a base address. -/
theorem Bar.probed_iff {b : Bar} (h : ¬ b.Unsupported) (hbase : b.base ≠ 0) :
    b.kind.probed = b.kind.size ↔ b.kind.isIo16 = false := by
  constructor
  · intro hsize
    by_contra hio
    rw [b.kind.probed_of_io16 (Bool.eq_true_of_not_eq_false hio)] at hsize
    exact absurd hsize (by simp)
  · intro hio
    apply b.kind.probed_eq hio
    intro hmask
    apply hbase
    rw [← UInt64.toNat_inj, ← Nat.mod_eq_of_lt (Bar.base_lt h), ← UInt64.toNat_toUInt32, ← Bar.base_and_mask,
      UInt64.toUInt32_and, hmask, UInt32.and_zero]
    rfl

/-- **What `read_bars` finds**: it fails to list the BARs with their sizes exactly where it returns
and an I/O BAR with 16 bits has a base address. -/
theorem barsFound_iff (hb : Follows space addr 0 bars) :
    BarsFound space addr bars ↔ (∃ b ∈ bars, b.Unsupported) ∨ ∀ b ∈ bars, b.kind.isIo16 = true → b.base = 0 := by
  by_cases hu : ∃ b ∈ bars, b.Unsupported
  · refine iff_of_true ?_ (.inl hu)
    intro res space' hres
    rw [readBars_abort hb hu] at hres
    cases hres
  · have hs : ∀ b ∈ bars, ¬ b.Unsupported := fun b hmem hb' => hu ⟨b, hmem, hb'⟩
    have hpad (n : ℕ) : (List.replicate n (⟨0, 0⟩ : BarInfo)).filter (fun info => info.base ≠ 0) = [] := by
      rw [List.filter_eq_nil_iff]
      intro info hinfo
      rw [List.eq_of_mem_replicate hinfo, BarInfo.base_zero]
      decide
    have hfound : BarsFound space addr bars ↔
        ∀ b ∈ bars.filter fun b => b.base ≠ 0, (b.base, b.kind.probed) = (b.base, b.kind.size) := by
      rw [← List.map_inj_left, ← filter_listed hs, BarsFound]
      constructor
      · intro h
        have hlist := (h _ _ (readBars_eq hb hs)).2
        rwa [List.filter_append, hpad, List.append_nil] at hlist
      · intro h res space' hres
        rw [readBars_eq hb hs] at hres
        cases hres
        rw [List.filter_append, hpad, List.append_nil]
        exact ⟨rfl, h⟩
    rw [hfound, or_iff_right hu]
    apply forall_congr'
    intro b
    rw [List.mem_filter, decide_eq_true_eq, and_imp]
    apply forall_congr'
    intro hmem
    rw [Prod.mk.injEq, eq_self, true_and]
    constructor
    · intro h hio
      by_contra hbase
      rw [(Bar.probed_iff (hs b hmem) hbase).mp (h hbase)] at hio
      cases hio
    · intro h hbase
      apply (Bar.probed_iff (hs b hmem) hbase).mpr
      by_contra hio
      exact hbase (h (Bool.eq_true_of_not_eq_false hio))

end Function

/-- The configuration space of a function with a single BAR. -/
def oneBar (b : Bar) : ConfigSpace := fun _ reg => if reg = 4 then b.low else ⟨0, 0⟩

theorem follows_oneBar {b : Bar} (addr : DeviceAddress) (hw : b.kind.width = 1) :
    Follows (oneBar b) addr 0 (b :: List.replicate 5 ⟨.unimplemented, 0⟩) := by
  have hnone (reg : ℕ) (h : reg ≠ 4) : (⟨.unimplemented, 0⟩ : Bar).At (oneBar b) addr reg := by
    rw [Bar.At, oneBar, if_neg h]
    exact ⟨by decide, fun h => absurd h (by decide)⟩
  rw [Follows, hw]
  refine ⟨⟨rfl, fun h => absurd (hw.symm.trans h) (by decide)⟩, ?_⟩
  exact ⟨hnone _ (by decide), hnone _ (by decide), hnone _ (by decide), hnone _ (by decide), hnone _ (by decide), rfl⟩

/-- The configuration space of a network card. -/
def networkCard : ConfigSpace := fun _ reg =>
  let registers : Bar := ⟨.mem64 13 false, 0xf0000000⟩
  let ports : Bar := ⟨.io32 3, 0xc000⟩
  if reg = 4 then registers.low else if reg = 5 then registers.high else if reg = 6 then ports.low else ⟨0, 0⟩

/-- Its BARs: 128 KB of registers at a 64-bit address, and 32 ports of which 32 bits are decoded. -/
def networkCardBars : List Bar :=
  [⟨.mem64 13 false, 0xf0000000⟩, ⟨.io32 3, 0xc000⟩, ⟨.unimplemented, 0⟩, ⟨.unimplemented, 0⟩, ⟨.unimplemented, 0⟩]

theorem follows_networkCard : Follows networkCard ⟨0, 3, 0⟩ 0 networkCardBars :=
  ⟨⟨rfl, fun _ => rfl⟩, ⟨rfl, nofun⟩, ⟨rfl, nofun⟩, ⟨rfl, nofun⟩, ⟨rfl, nofun⟩, rfl⟩

theorem barsFound_iff_networkCard : BarsFound networkCard ⟨0, 3, 0⟩ networkCardBars :=
  (barsFound_iff follows_networkCard).mpr (.inr (by decide))

/-- **The size of an I/O BAR can be wrong**: 32 ports at `0xc000` come out as `0xffff0020`. -/
theorem not_barsFound :
    ¬ ∀ (space : ConfigSpace) (addr : DeviceAddress) (bars : List Bar),
      Follows space addr 0 bars → BarsFound space addr bars := by
  intro h
  have hb := @follows_oneBar ⟨.io16 3, 0xc000⟩ ⟨0, 3, 0⟩ rfl
  have hlist := (h _ _ _ hb _ _ (readBars_eq hb (by decide))).2
  exact absurd hlist (by decide +kernel)

end Attos.Pci
