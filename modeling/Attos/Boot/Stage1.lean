import Attos.Lib.LittleEndian
import Attos.Lib.Outcome

/-!
# The first stage of the boot loader

`bootloader/stage1.asm` is the boot sector. It asks the BIOS for the number of sectors of the drive
and loads the sectors behind the first one to `LOAD_ADDR`, at most `MAX_SECTORS` of them and at most
`0x7f` at a time.

The number of sectors is compared as a signed number once it is known to have 16 bits. So the loop
asks for the sectors that it should unless this number is `0` or has its top bit set
(`toNat_sectorCount`). Then it loads one contiguous piece of the drive, in packets that the BIOS
can answer, to the memory in front of the scratch area (`readLoop_loads`).

The address packet is a part of the boot sector. The stack lies below the boot sector, as do the
data of the BIOS, and memory there is left out.
-/

namespace Attos.Boot

open Lib

/-- Physical memory. -/
abbrev Memory : Type := ℕ → UInt8

/-- `BOOT_ADDR` -/
def bootAddr : ℕ := 0x7c00

/-- `LOAD_ADDR` -/
def loadAddr : ℕ := 0x7e00

/-- `SCRATCH_ADDRESS` -/
def scratchAddress : ℕ := 0x40000

/-- `MAX_SECTORS` -/
def maxSectors : ℕ := (scratchAddress - loadAddr) / 512

theorem bootAddr_eq : bootAddr = 0x7c00 := rfl

theorem loadAddr_eq : loadAddr = 0x7e00 := rfl

theorem scratchAddress_eq : scratchAddress = 0x40000 := rfl

theorem maxSectors_eq : maxSectors = 449 := rfl

/-- `address_packet` -/
structure AddressPacket : Type where
  /-- `address_packet_block_count` -/
  blockCount : BitVec 16
  /-- the offset of the buffer -/
  offset : BitVec 16
  /-- `address_packet_segment` -/
  segment : BitVec 16
  /-- `address_packet_start_block` -/
  startBlock : BitVec 64

/-- The packet at an address, behind its size. -/
def AddressPacket.read (m : Memory) (a : ℕ) : AddressPacket where
  blockCount := BitVec.ofNat 16 (le16 m (a + 2))
  offset := BitVec.ofNat 16 (le16 m (a + 4))
  segment := BitVec.ofNat 16 (le16 m (a + 6))
  startBlock := BitVec.ofNat 64 (le64 m (a + 8))

/-- `int 0x13` with `ah = 0x42`. There is no memory if the carry flag is set. -/
abbrev ExtendedRead : Type := AddressPacket → Memory → Option Memory

/-- The number of sectors to load, up to `.sizeok`. The words of the number that the BIOS has stored
are compared one after the other. -/
def sectorCount (total : BitVec 64) : BitVec 16 :=
  if total.extractLsb' 48 16 ≠ 0 then BitVec.ofNat 16 maxSectors
  else if total.extractLsb' 32 16 ≠ 0 then BitVec.ofNat 16 maxSectors
  else if total.extractLsb' 16 16 ≠ 0 then BitVec.ofNat 16 maxSectors
  else
    let ax := total.extractLsb' 0 16 - 1
    if ax.sle (BitVec.ofNat 16 maxSectors) then ax else BitVec.ofNat 16 maxSectors

/-- The loop that reads sectors. -/
structure Reading : Type where
  /-- the sectors that are left -/
  cx : BitVec 16
  /-- the memory -/
  mem : Memory
  /-- the packets that the BIOS has answered -/
  packets : List AddressPacket

/-- The body of `.readloop`, with `address_packet` at `addr`. -/
def Reading.step (int13 : ExtendedRead) (addr : ℕ) (s : Reading) : Option Reading :=
  let ax : BitVec 16 := if s.cx.sle 0x7f then s.cx else 0x7f
  let m := store16 s.mem (addr + 2) ax.toNat
  let packet := AddressPacket.read m addr
  (int13 packet m).map fun m =>
    let ax := BitVec.ofNat 16 (le16 m (addr + 2))
    let m := store16 m (addr + 8) (le16 m (addr + 8) + ax.toNat)
    let m' := store16 m (addr + 6) (le16 m (addr + 6) + (ax <<< 5).toNat)
    { cx := s.cx - ax, mem := m', packets := s.packets ++ [packet] }

/-- `.readloop`. The boot sector hangs when a read fails. -/
def readLoop (int13 : ExtendedRead) (addr : ℕ) : ℕ → Reading → Outcome Reading
  | 0, _ => .running
  | fuel + 1, s =>
    match s.step int13 addr with
    | none => .abort
    | some s => if s.cx = 0 then .done s else readLoop int13 addr fuel s

/-- What `.readloop` begins with. -/
def start (total : BitVec 64) (m : Memory) : Reading := ⟨sectorCount total, m, []⟩

/-- The packet as it is in the boot sector. -/
structure BootSector (addr : ℕ) (m : Memory) : Prop where
  /-- it is in front of `boot_drive` -/
  inside : bootAddr ≤ addr ∧ addr + 16 ≤ bootAddr + 509
  /-- its contents -/
  packet : AddressPacket.read m addr = ⟨1, 0, BitVec.ofNat 16 (loadAddr >>> 4), 1⟩

/-! ## The BIOS -/

/-- The bytes of the transfer buffer of a packet. -/
def AddressPacket.Buffer (p : AddressPacket) (a : ℕ) : Prop :=
  16 * p.segment.toNat + p.offset.toNat ≤ a ∧ a < 16 * p.segment.toNat + p.offset.toNat + 512 * p.blockCount.toNat

/-- A read that succeeds stores the sectors of the drive in the transfer buffer, if there are not
too many of them, and otherwise only changes memory below the boot sector. -/
structure Reads (disk : ℕ → UInt8) (int13 : ExtendedRead) : Prop where
  /-- the sectors -/
  data : ∀ p m m', int13 p m = some m' → p.blockCount.toNat ≤ 0x7f → ∀ i < 512 * p.blockCount.toNat,
    m' (16 * p.segment.toNat + p.offset.toNat + i) = disk (512 * p.startBlock.toNat + i)
  /-- the rest -/
  other : ∀ p m m', int13 p m = some m' → p.blockCount.toNat ≤ 0x7f → ∀ a, bootAddr ≤ a → ¬ p.Buffer a →
    m' a = m a

instance (p : AddressPacket) (a : ℕ) : Decidable (p.Buffer a) := inferInstanceAs (Decidable (_ ∧ _))

/-- A drive on which all reads succeed. -/
def driveRead (disk : ℕ → UInt8) : ExtendedRead := fun p m =>
  some fun a =>
    if p.Buffer a then disk (512 * p.startBlock.toNat + (a - (16 * p.segment.toNat + p.offset.toNat))) else m a

theorem driveRead_reads (disk : ℕ → UInt8) : Reads disk (driveRead disk) where
  data := by
    intro p m m' hread _ i hi
    obtain rfl := Option.some.inj hread
    have hin : p.Buffer (16 * p.segment.toNat + p.offset.toNat + i) :=
      ⟨Nat.le_add_right .., Nat.add_lt_add_left hi _⟩
    exact (if_pos hin).trans (by rw [Nat.add_sub_cancel_left])
  other := by
    intro p m m' hread _ a _ hout
    obtain rfl := Option.some.inj hread
    exact if_neg hout

/-- `n` sectors behind the first one are in memory. The boot sector and what is behind it are as they
were otherwise, but for the packet. -/
structure Loads (disk : ℕ → UInt8) (addr n : ℕ) (m m' : Memory) : Prop where
  /-- the sectors -/
  data : ∀ i < 512 * n, m' (loadAddr + i) = disk (512 + i)
  /-- the rest -/
  other : ∀ a, bootAddr ≤ a → ¬ (addr ≤ a ∧ a < addr + 16) → ¬ (loadAddr ≤ a ∧ a < loadAddr + 512 * n) → m' a = m a

/-- The packets ask for sectors that follow each other, up to the sector `hi` and from `lo` on, and
each one for as many as can be read at once. -/
inductive Contiguous : List AddressPacket → ℕ → ℕ → Prop where
  /-- no packets -/
  | nil (lo : ℕ) : Contiguous [] lo lo
  /-- one more packet -/
  | cons {p : AddressPacket} {ps : List AddressPacket} {lo hi : ℕ} : p.startBlock.toNat = lo →
      0 < p.blockCount.toNat → p.blockCount.toNat ≤ 0x7f →
      16 * p.segment.toNat + p.offset.toNat + 512 = loadAddr + 512 * lo →
      Contiguous ps (lo + p.blockCount.toNat) hi → Contiguous (p :: ps) lo hi

section Count

variable {total : BitVec 64}

/-- A number that is not large has only its lowest word. -/
theorem extract_eq_zero_iff : total.extractLsb' 48 16 = 0 ∧ total.extractLsb' 32 16 = 0 ∧
    total.extractLsb' 16 16 = 0 ↔ total.toNat < 0x10000 := by
  have hlt := total.isLt
  have hword : ∀ k, total.extractLsb' k 16 = 0 ↔ total.toNat / 2 ^ k % 2 ^ 16 = 0 := by
    intro k
    rw [← BitVec.toNat_inj, BitVec.extractLsb'_toNat, Nat.shiftRight_eq_div_pow]
    rfl
  rw [hword, hword, hword]
  omega

/-- A signed comparison of words. -/
theorem sle_iff {x : BitVec 16} {n : ℕ} (hn : n < 2 ^ 15) :
    x.sle (BitVec.ofNat 16 n) ↔ x.toNat ≤ n ∨ 2 ^ 15 ≤ x.toNat := by
  have hlt := x.isLt
  rw [BitVec.sle_iff_toInt_le, BitVec.toInt_eq_toNat_cond, BitVec.toInt_eq_toNat_cond, BitVec.toNat_ofNat]
  split <;> split <;> omega

/-- **The sectors to load** are all but the first one, up to the limit, if the number of sectors
does not look like a negative number. -/
theorem toNat_sectorCount : (sectorCount total).toNat = min (total.toNat - 1) maxSectors ↔
    0 < total.toNat ∧ (total.toNat ≤ 0x8000 ∨ 0x10000 ≤ total.toNat) := by
  have hmax := maxSectors_eq
  have hlow : total.toNat < 0x10000 → (total.extractLsb' 0 16 - 1).toNat = (total.toNat + 0xffff) % 0x10000 := by
    intro hlt
    rw [BitVec.toNat_sub, BitVec.extractLsb'_toNat, Nat.shiftRight_zero, Nat.mod_eq_of_lt hlt]
    rw [show (1 : BitVec 16).toNat = 1 from rfl, Nat.add_comm]
  by_cases hlarge : total.toNat < 0x10000
  · obtain ⟨h₃, h₂, h₁⟩ := extract_eq_zero_iff.mpr hlarge
    rw [sectorCount, if_neg (not_not.mpr h₃), if_neg (not_not.mpr h₂), if_neg (not_not.mpr h₁)]
    have hax := hlow hlarge
    have hsle := @sle_iff (total.extractLsb' 0 16 - 1) maxSectors (by decide)
    simp only
    split
    · next h =>
      have hcases := hsle.mp h
      omega
    · next h =>
      have hcases := mt hsle.mpr h
      rw [BitVec.toNat_ofNat, hmax]
      omega
  · have hcount : sectorCount total = BitVec.ofNat 16 maxSectors := by
      rw [← extract_eq_zero_iff, not_and_or, not_and_or] at hlarge
      rw [sectorCount]
      split
      · rfl
      · split
        · rfl
        · rw [if_pos (by tauto)]
    rw [hcount, BitVec.toNat_ofNat, hmax]
    omega

end Count

section Loop

variable {disk : ℕ → UInt8} {int13 : ExtendedRead} {s s' : Reading} {m m' m'' : Memory} {addr k n lo : ℕ}
  {p : AddressPacket}

/-- The packet for the sector `lo`, but for the number of sectors. -/
structure Packet (addr : ℕ) (m : Memory) (lo : ℕ) : Prop where
  /-- the next sector -/
  startBlock : le64 m (addr + 8) = lo
  /-- the offset is not used -/
  offset : le16 m (addr + 4) = 0
  /-- where it goes -/
  segment : 16 * le16 m (addr + 6) + 512 = loadAddr + 512 * lo

/-- The state of the loop before the sector `lo` is read. -/
structure Reading.At (s : Reading) (addr lo : ℕ) : Prop where
  /-- the packet is in the boot sector -/
  inside : bootAddr ≤ addr ∧ addr + 16 ≤ bootAddr + 509
  /-- it asks for this sector -/
  packet : Packet addr s.mem lo
  /-- the first sector has been loaded -/
  behind : 0 < lo
  /-- there is something left -/
  pos : 0 < s.cx.toNat
  /-- it fits in front of the scratch area -/
  fits : lo + s.cx.toNat ≤ maxSectors + 1

/-- The number of sectors that are read at once. -/
theorem toNat_chunk (cx : BitVec 16) (hcx : cx.toNat ≤ maxSectors) :
    (if cx.sle 0x7f then cx else 0x7f : BitVec 16).toNat = min cx.toNat 0x7f := by
  have hmax := maxSectors_eq
  have hsle := @sle_iff cx 0x7f (by decide)
  split
  · next h =>
    have hcases := hsle.mp h
    omega
  · next h =>
    have hcases := mt hsle.mpr h
    rw [show (0x7f : BitVec 16).toNat = 0x7f from rfl]
    omega

/-- Nothing but the number of sectors is stored. -/
theorem Packet.store (h : Packet addr m lo) : Packet addr (store16 m (addr + 2) k) lo := by
  obtain ⟨hstart, hoffset, hsegment⟩ := h
  refine ⟨?_, ?_, ?_⟩
  · rw [le64_congr fun i hi => store16_of_not (by omega), hstart]
  · rw [le16_store16_of_apart (.inr (by omega)), hoffset]
  · rw [le16_store16_of_apart (.inr (by omega)), hsegment]

/-- The packet that the BIOS gets. -/
theorem Packet.read_store (h : Packet addr m lo) (hlo : lo < 2 ^ 16) (hk : k < 2 ^ 16) :
    (AddressPacket.read (store16 m (addr + 2) k) addr).blockCount.toNat = k ∧
      (AddressPacket.read (store16 m (addr + 2) k) addr).startBlock.toNat = lo ∧
      16 * (AddressPacket.read (store16 m (addr + 2) k) addr).segment.toNat +
        (AddressPacket.read (store16 m (addr + 2) k) addr).offset.toNat + 512 = loadAddr + 512 * lo := by
  obtain ⟨hstart, hoffset, hsegment⟩ : Packet addr (store16 m (addr + 2) k) lo := h.store
  refine ⟨?_, ?_, ?_⟩
  · rw [AddressPacket.read, BitVec.toNat_ofNat, le16_store16, Nat.mod_mod, Nat.mod_eq_of_lt hk]
  · rw [AddressPacket.read, BitVec.toNat_ofNat, hstart, Nat.mod_eq_of_lt (by omega)]
  · rw [AddressPacket.read, BitVec.toNat_ofNat, BitVec.toNat_ofNat, hoffset, Nat.mod_eq_of_lt (le16_lt ..)]
    exact hsegment

/-- The packet for the sectors behind the `k` ones that have been read. -/
theorem Packet.advance (h : Packet addr m lo) (hmax : lo + k ≤ maxSectors + 1) :
    Packet addr (store16 (store16 m (addr + 8) (le16 m (addr + 8) + k)) (addr + 6)
      (le16 (store16 m (addr + 8) (le16 m (addr + 8) + k)) (addr + 6) + 32 * k)) (lo + k) := by
  have hsectors := maxSectors_eq
  have hload := loadAddr_eq
  obtain ⟨hstart, hoffset, hsegment⟩ := h
  have hlow : le16 m (addr + 8) = lo % 2 ^ 16 := by
    have hlt := le16_lt m (addr + 8)
    rw [← hstart, le64, le32]
    omega
  have hseg : le16 (store16 m (addr + 8) (le16 m (addr + 8) + k)) (addr + 6) = le16 m (addr + 6) :=
    le16_store16_of_apart (.inl (by omega))
  constructor
  · rw [le64_congr fun i hi => store16_of_not (by omega), le64_store16, hstart, hlow]
    omega
  · rw [le16_store16_of_apart (.inl (by omega)), le16_store16_of_apart (.inl (by omega)), hoffset]
  · rw [le16_store16, hseg]
    omega

/-- The packet is in its sixteen bytes. -/
theorem Packet.of_same (h : Packet addr m lo) (hsame : ∀ a, addr ≤ a → a < addr + 16 → m' a = m a) :
    Packet addr m' lo := by
  obtain ⟨hstart, hoffset, hsegment⟩ := h
  refine ⟨?_, ?_, ?_⟩
  · rw [le64_congr fun i hi => hsame _ (by omega) (by omega), hstart]
  · rw [le16_congr fun i hi => hsame _ (by omega) (by omega), hoffset]
  · rw [le16_congr fun i hi => hsame _ (by omega) (by omega), hsegment]

/-- **A turn of the loop** reads the next sectors. -/
theorem Reading.At.step (hbios : Reads disk int13) (h : s.At addr lo) (hs : s.step int13 addr = some s') :
    ∃ p m₁ m₂, s'.packets = s.packets ++ [p] ∧ (∀ a, ¬ (addr ≤ a ∧ a < addr + 16) → m₁ a = s.mem a) ∧
      int13 p m₁ = some m₂ ∧ (∀ a, ¬ (addr ≤ a ∧ a < addr + 16) → s'.mem a = m₂ a) ∧
      p.startBlock.toNat = lo ∧ p.blockCount.toNat = min s.cx.toNat 0x7f ∧
      16 * p.segment.toNat + p.offset.toNat + 512 = loadAddr + 512 * lo ∧
      s'.cx.toNat = s.cx.toNat - p.blockCount.toNat ∧ (s'.cx ≠ 0 → s'.At addr (lo + p.blockCount.toNat)) := by
  have hmax := maxSectors_eq
  have hload := loadAddr_eq
  have hboot := bootAddr_eq
  obtain ⟨hinside, hpacket, hbehind, hpos, hfits⟩ := h
  have hax := toNat_chunk s.cx (by omega)
  rw [Reading.step] at hs
  generalize (if s.cx.sle 0x7f then s.cx else 0x7f : BitVec 16) = ax at hs hax
  obtain ⟨m₂, hread, rfl⟩ := Option.map_eq_some_iff.mp hs
  obtain ⟨hcount, hstart, hsegment⟩ := @Packet.read_store s.mem addr ax.toNat lo hpacket (by omega) (by omega)
  have hsame : ∀ a, addr ≤ a → a < addr + 16 → m₂ a = store16 s.mem (addr + 2) ax.toNat a := by
    intro a hlo hhi
    refine hbios.other _ _ _ hread (by omega) a (by omega) fun hin => ?_
    have hbuffer := hin.1
    omega
  -- the number of sectors is read back
  have hback : le16 m₂ (addr + 2) = ax.toNat := by
    rw [le16_congr fun i hi => hsame _ (by omega) (by omega), le16_store16, Nat.mod_eq_of_lt ax.isLt]
  have hword : BitVec.ofNat 16 (le16 m₂ (addr + 2)) = ax := by rw [hback, BitVec.ofNat_toNat, BitVec.setWidth_eq]
  have hcx : (s.cx - ax).toNat = s.cx.toNat - ax.toNat := by
    rw [BitVec.toNat_sub]
    omega
  have hshift : (ax <<< 5).toNat = 32 * ax.toNat := by
    rw [BitVec.toNat_shiftLeft, Nat.shiftLeft_eq]
    omega
  rw [hword]
  dsimp only
  rw [hshift]
  refine ⟨_, store16 s.mem (addr + 2) ax.toNat, m₂, rfl, fun a ha => store16_of_not (by omega), hread, fun a ha => ?_,
    hstart, hcount.trans hax, hsegment, by rw [hcount]; exact hcx, fun hne => ?_⟩
  · exact (store16_of_not (by omega)).trans (store16_of_not (by omega))
  · have hleft : (s.cx - ax).toNat ≠ 0 := fun hzero => hne (BitVec.eq_of_toNat_eq hzero)
    rw [hcount]
    refine ⟨hinside, (hpacket.store.of_same hsame).advance (by omega), Nat.add_pos_left hbehind _, Nat.pos_of_ne_zero hleft, ?_⟩
    change lo + ax.toNat + (s.cx - ax).toNat ≤ maxSectors + 1
    omega

/-- The packet does not count. -/
theorem Loads.congr {m₁ m₁' : Memory} (h : Loads disk addr n m m₁) (haddr : addr + 16 ≤ loadAddr)
    (hsame : ∀ a, ¬ (addr ≤ a ∧ a < addr + 16) → m₁' a = m₁ a) : Loads disk addr n m m₁' := by
  refine ⟨fun i hi => ?_, fun a ha hpacket hout => ?_⟩
  · rw [hsame _ (by omega)]
    exact h.data i hi
  · rw [hsame a hpacket]
    exact h.other a ha hpacket hout

/-- The sectors of a packet, behind those that are loaded already. -/
theorem Loads.append (h : Loads disk addr n m m') (hbios : Reads disk int13) (hread : int13 p m' = some m'')
    (hstart : p.startBlock.toNat = n + 1) (hcount : p.blockCount.toNat = k) (hmax : k ≤ 0x7f)
    (hsegment : 16 * p.segment.toNat + p.offset.toNat = loadAddr + 512 * n) : Loads disk addr (n + k) m m'' := by
  have hload : bootAddr ≤ loadAddr := by decide
  have hbuffer : ∀ a, p.Buffer a ↔ loadAddr + 512 * n ≤ a ∧ a < loadAddr + 512 * n + 512 * k := by
    intro a
    rw [AddressPacket.Buffer, hsegment, hcount]
  constructor
  · intro i hi
    by_cases hlt : i < 512 * n
    · have hout : ¬ p.Buffer (loadAddr + i) := by
        rw [hbuffer]
        omega
      rw [hbios.other p m' m'' hread (by omega) _ (by omega) hout]
      exact h.data i hlt
    · have hdata := hbios.data p m' m'' hread (by omega) (i - 512 * n) (by omega)
      rw [hsegment, hstart] at hdata
      have hplace : loadAddr + 512 * n + (i - 512 * n) = loadAddr + i := by omega
      have hsector : 512 * (n + 1) + (i - 512 * n) = 512 + i := by omega
      rw [hplace, hsector] at hdata
      exact hdata
  · intro a ha hpacket hout
    have hpart : ¬ p.Buffer a := by
      rw [hbuffer]
      omega
    rw [hbios.other p m' m'' hread (by omega) a ha hpart]
    exact h.other a ha hpacket (by omega)

/-- What a whole run of the loop does. -/
structure Finishes (disk : ℕ → UInt8) (addr : ℕ) (m : Memory) (ps : List AddressPacket) (lo hi : ℕ) (s : Reading) :
    Prop where
  /-- the packets -/
  packets : ∃ qs, s.packets = ps ++ qs ∧ Contiguous qs lo hi
  /-- the memory -/
  loads : Loads disk addr (hi - 1) m s.mem

/-- **The run**: the loop ends, and what it returns with has loaded all sectors. -/
theorem Reading.At.run (hbios : Reads disk int13) (h : s.At addr lo) (hloads : Loads disk addr (lo - 1) m s.mem)
    {fuel : ℕ} (hfuel : s.cx.toNat ≤ fuel) :
    readLoop int13 addr fuel s = .abort ∨
      ∃ s', readLoop int13 addr fuel s = .done s' ∧ Finishes disk addr m s.packets lo (lo + s.cx.toNat) s' := by
  induction fuel generalizing s lo with
  | zero =>
    have hpos := h.pos
    omega
  | succ fuel ih =>
    have hbehind := h.behind
    have hpos := h.pos
    rw [readLoop]
    cases hs : s.step int13 addr with
    | none => exact .inl rfl
    | some t =>
      obtain ⟨p, m₁, m₂, hpackets, hbefore, hread, hafter, hstart, hcount, hsegment, hleft, hnext⟩ := h.step hbios hs
      have hload := loadAddr_eq
      have haddr : addr + 16 ≤ loadAddr := h.inside.2.trans (by decide)
      have hread' : Loads disk addr (lo - 1 + p.blockCount.toNat) m m₂ :=
        (hloads.congr haddr hbefore).append hbios hread (by omega) rfl (by omega) (by omega)
      have hmore : Loads disk addr (lo - 1 + p.blockCount.toNat) m t.mem := hread'.congr haddr hafter
      simp only
      by_cases hdone : t.cx = 0
      · rw [if_pos hdone]
        have hzero : t.cx.toNat = 0 := by rw [hdone]; rfl
        have hall : lo + s.cx.toNat = lo + p.blockCount.toNat := by omega
        refine .inr ⟨t, rfl, ⟨[p], hpackets, ?_⟩, ?_⟩
        · rw [hall]
          exact .cons hstart (by omega) (by omega) hsegment (.nil _)
        · rw [hall, show lo + p.blockCount.toNat - 1 = lo - 1 + p.blockCount.toNat by omega]
          exact hmore
      · rw [if_neg hdone]
        have hat := hnext hdone
        have hsum : lo + p.blockCount.toNat + t.cx.toNat = lo + s.cx.toNat := by omega
        have hmore' : Loads disk addr (lo + p.blockCount.toNat - 1) m t.mem := by
          rw [show lo + p.blockCount.toNat - 1 = lo - 1 + p.blockCount.toNat by omega]
          exact hmore
        refine (ih hat hmore' (by omega)).imp id fun ⟨s', hrun, ⟨qs, hqs, hcontiguous⟩, hfinal⟩ => ?_
        rw [hsum] at hcontiguous hfinal
        refine ⟨s', hrun, ⟨p :: qs, ?_, ?_⟩, hfinal⟩
        · rw [hqs, hpackets, List.append_assoc]
          rfl
        · exact .cons hstart (by omega) (by omega) hsegment hcontiguous

/-- The packet of the boot sector asks for the second sector. -/
theorem BootSector.packet_one (h : BootSector addr m) : Packet addr m 1 := by
  have hread := h.packet
  simp only [AddressPacket.read, AddressPacket.mk.injEq] at hread
  obtain ⟨-, hoffset, hsegment, hstart⟩ := hread
  have hoffset' := congrArg BitVec.toNat hoffset
  have hsegment' := congrArg BitVec.toNat hsegment
  have hstart' := congrArg BitVec.toNat hstart
  rw [BitVec.toNat_ofNat, Nat.mod_eq_of_lt (le16_lt ..)] at hoffset' hsegment'
  rw [BitVec.toNat_ofNat, Nat.mod_eq_of_lt (le64_lt ..)] at hstart'
  refine ⟨hstart', hoffset', ?_⟩
  rw [hsegment']
  rfl

/-- The loop as it is entered. -/
theorem start_run (hbios : Reads disk int13) {total : BitVec 64} (htotal : 1 < total.toNat)
    (hsigned : total.toNat ≤ 0x8000 ∨ 0x10000 ≤ total.toNat) (hsector : BootSector addr m) {fuel : ℕ}
    (hfuel : maxSectors ≤ fuel) :
    readLoop int13 addr fuel (start total m) = .abort ∨
      ∃ s, readLoop int13 addr fuel (start total m) = .done s ∧
        Finishes disk addr m [] 1 (min (total.toNat - 1) maxSectors + 1) s := by
  have hcx : (start total m).cx.toNat = min (total.toNat - 1) maxSectors :=
    toNat_sectorCount.mpr ⟨by omega, hsigned⟩
  have hmax := maxSectors_eq
  have hat : (start total m).At addr 1 := ⟨hsector.inside, hsector.packet_one, Nat.one_pos, by omega, by omega⟩
  have hnone : Loads disk addr 0 m (start total m).mem := ⟨fun i hi => absurd hi (by omega), fun a _ _ _ => rfl⟩
  have hrun := hat.run hbios hnone (by omega : (start total m).cx.toNat ≤ fuel)
  rw [hcx, Nat.add_comm 1] at hrun
  exact hrun

/-- What the loop returns with has loaded the sectors. -/
theorem loads_of_done (hbios : Reads disk int13) {total : BitVec 64} (htotal : 1 < total.toNat)
    (hsigned : total.toNat ≤ 0x8000 ∨ 0x10000 ≤ total.toNat) (hsector : BootSector addr m) {fuel : ℕ}
    (hfuel : maxSectors ≤ fuel) (hrun : readLoop int13 addr fuel (start total m) = .done s) :
    Loads disk addr (min (total.toNat - 1) maxSectors) m s.mem := by
  obtain habort | ⟨s', hdone, hfinishes⟩ := start_run hbios htotal hsigned hsector hfuel
  · rw [habort] at hrun
    cases hrun
  · rw [hdone] at hrun
    obtain rfl := Outcome.done.inj hrun
    exact hfinishes.loads

/-- **The sectors of the drive are loaded** contiguously, in packets that the BIOS can answer, or the
boot sector hangs as a read fails. -/
theorem readLoop_loads (hbios : Reads disk int13) {total : BitVec 64} (htotal : 1 < total.toNat)
    (hsigned : total.toNat ≤ 0x8000 ∨ 0x10000 ≤ total.toNat) (hsector : BootSector addr m) {fuel : ℕ}
    (hfuel : maxSectors ≤ fuel) :
    readLoop int13 addr fuel (start total m) = .abort ∨
      ∃ s, readLoop int13 addr fuel (start total m) = .done s ∧
        Contiguous s.packets 1 (min (total.toNat - 1) maxSectors + 1) ∧
        Loads disk addr (min (total.toNat - 1) maxSectors) m s.mem ∧
        loadAddr + 512 * min (total.toNat - 1) maxSectors ≤ scratchAddress := by
  have hmax := maxSectors_eq
  have hload := loadAddr_eq
  have hscratch := scratchAddress_eq
  refine (start_run hbios htotal hsigned hsector hfuel).imp id ?_
  rintro ⟨s, hrun, ⟨qs, hqs, hcontiguous⟩, hloads⟩
  obtain rfl : s.packets = qs := hqs
  exact ⟨s, hrun, hcontiguous, hloads, by omega⟩

/-- A boot sector with its packet at `0x7d00`. -/
def bootMemory : Memory := fun a => ([(0x7d02, 1), (0x7d06, 0xe0), (0x7d07, 0x07), (0x7d08, 1)].lookup a).getD 0

theorem bootMemory_sector : BootSector 0x7d00 bootMemory := ⟨by decide, by rfl⟩

/-- A drive with a thousand sectors is read up to the limit. -/
theorem readLoop_loads_thousand :
    readLoop (driveRead UInt8.ofNat) 0x7d00 449 (start 1000 bootMemory) = .abort ∨
      ∃ s, readLoop (driveRead UInt8.ofNat) 0x7d00 449 (start 1000 bootMemory) = .done s ∧ Contiguous s.packets 1 450 ∧
        Loads UInt8.ofNat 0x7d00 449 bootMemory s.mem ∧ loadAddr + 512 * 449 ≤ scratchAddress :=
  readLoop_loads (driveRead_reads UInt8.ofNat) (by decide) (.inl (by decide)) bootMemory_sector le_rfl

end Loop

end Attos.Boot
