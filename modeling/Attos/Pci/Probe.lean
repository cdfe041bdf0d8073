import Attos.Containers.VectorRuns
import Attos.Lib.Chains
import Attos.Pci.Bars
import Mathlib.Order.CompletePartialOrder

/-!
# The enumeration of devices

`probe_bus` looks at the 32 devices of a bus, and follows every bridge to the bus behind it, the
number of which it takes from the bridge. It keeps no record of the buses that it has been to. So
it comes to an end exactly if no chain of bridges leads back to a bus that it started from, and
lists a function once exactly if one chain only leads to its bus (`enumerates_iff`).

The list is a vector that grows. Nothing else is allocated meanwhile, and `kalloc` ends the program
when it fails, so that the allocations which succeed are those up to some number of bytes.
-/

namespace Attos.Pci

open Lib Containers Kvector

/-- `header_type_device_mask` -/
def headerTypeDeviceMask : UInt8 := 0x03

/-- `header_type_multi_function_mask` -/
def headerTypeMultiFunctionMask : UInt8 := 0x80

/-- `config_area` -/
abbrev ConfigArea : Type := List UInt32

namespace ConfigArea

/-- `header_type`, at offset 14 -/
def headerType (ca : ConfigArea) : UInt8 := (ca.getD 3 0 >>> 16).toUInt8

/-- `header1.primary_bus`, at offset 24 -/
def primaryBus (ca : ConfigArea) : UInt8 := (ca.getD 6 0).toUInt8

/-- `header1.secondary_bus`, at offset 25 -/
def secondaryBus (ca : ConfigArea) : UInt8 := (ca.getD 6 0 >>> 8).toUInt8

end ConfigArea

/-- The loop of `read_config_area` over registers. -/
def readConfigDwords (space : ConfigSpace) (dev : DeviceAddress) : List ℕ → Outcome ConfigArea
  | [] => pure []
  | i :: is => do
    let dw ← readConfigDword space dev i
    let dws ← readConfigDwords space dev is
    pure (dw :: dws)

/-- `read_config_area` -/
def readConfigArea (space : ConfigSpace) (dev : DeviceAddress) : Outcome ConfigArea :=
  readConfigDwords space dev (List.range configAreaNumDwords)

/-- `device_info` -/
structure DeviceInfo : Type where
  /-- where the function is -/
  address : DeviceAddress
  /-- its registers -/
  config : ConfigArea
  /-- its BARs -/
  bars : List BarInfo

/-- `device_info` as an element type. There is no default value, which `push_back` does not need. -/
def deviceInfo : ElementType DeviceInfo Empty where
  sizeof := 360
  sizeof_pos := by decide
  sizeof_lt := by decide
  default := ⟨⟨0, 0, 0⟩, [], []⟩
  resources _ := []
  destroy e := e
  moveFrom e := e
  moveAssign _ b := (b, b)

theorem deviceInfo_copyable : TriviallyCopyable deviceInfo := ⟨fun _ => rfl, fun _ _ => rfl⟩

/-- `manager_impl`, with the registers of the devices. -/
structure ManagerImpl : Type where
  /-- the registers -/
  space : ConfigSpace
  /-- `devices_` -/
  devices : Kvector DeviceInfo

/-- The addresses of the devices in the list. -/
def ManagerImpl.addresses (m : ManagerImpl) : List DeviceAddress := m.devices.contents.map DeviceInfo.address

section Enumerate

variable (mem : Memory) (junk : ℕ → DeviceInfo)

mutual

/-- `probe` -/
def probe : ℕ → ManagerImpl → DeviceAddress → Outcome ManagerImpl
  | 0, _, _ => .running
  | fuel + 1, m, devAddr => do
    let cfgdw ← readConfigDword m.space devAddr 0
    if cfgdw &&& 0xffff = 0xffff then pure m
    else do
      let ca ← readConfigArea m.space devAddr
      let headerType := ca.headerType &&& headerTypeDeviceMask
      let m ←
        if headerType = 0 then do
          let (bars, space) ← readBars m.space devAddr
          let (devices, _) ← m.devices.pushBack deviceInfo mem.bytes junk ⟨devAddr, ca, bars⟩
          pure ⟨space, devices⟩
        else if headerType = 1 then do
          Outcome.require (devAddr.bus = ca.primaryBus)
          probeBus fuel m ca.secondaryBus
        else .abort
      if devAddr.func = 0 ∧ ca.headerType &&& headerTypeMultiFunctionMask ≠ 0 then
        [1, 2, 3, 4, 5, 6, 7].foldlM (fun m func => probe fuel m ⟨devAddr.bus, devAddr.slot, func⟩) m
      else pure m

/-- `probe_bus` -/
def probeBus : ℕ → ManagerImpl → UInt8 → Outcome ManagerImpl
  | 0, _, _ => .running
  | fuel + 1, m, bus => (List.finRange 32).foldlM (fun m slot => probe fuel m ⟨bus, slot, 0⟩) m

end

/-- The constructor of `manager_impl`. -/
def enumerate (fuel : ℕ) (space : ConfigSpace) : Outcome ManagerImpl :=
  probeBus mem junk fuel ⟨space, .null junk⟩ 0

end Enumerate

/-! ## Functions and bridges -/

section Functions

variable (space : ConfigSpace)

/-- The values of the registers of a function. -/
def configArea (addr : DeviceAddress) : ConfigArea :=
  (List.range configAreaNumDwords).map fun i => (space addr i).value

/-- There is a function. -/
def Present (addr : DeviceAddress) : Prop := (space addr 0).value &&& 0xffff ≠ 0xffff

/-- A function of type 0. -/
def Normal (addr : DeviceAddress) : Prop := (configArea space addr).headerType &&& headerTypeDeviceMask = 0

/-- A bridge. -/
def Bridge (addr : DeviceAddress) : Prop := (configArea space addr).headerType &&& headerTypeDeviceMask = 1

/-- A device with several functions. -/
def MultiFunction (addr : DeviceAddress) : Prop :=
  (configArea space addr).headerType &&& headerTypeMultiFunctionMask ≠ 0

instance : DecidablePred (Present space) := fun addr =>
  inferInstanceAs (Decidable ((space addr 0).value &&& 0xffff ≠ 0xffff))

instance : DecidablePred (MultiFunction space) := fun addr =>
  inferInstanceAs (Decidable ((configArea space addr).headerType &&& headerTypeMultiFunctionMask ≠ 0))

/-- The bus behind a bridge. -/
def secondaryBus (addr : DeviceAddress) : UInt8 := (configArea space addr).secondaryBus

/-- The functions that `probe` looks at. -/
def functionsAt (addr : DeviceAddress) : Set DeviceAddress :=
  {g | Present space addr ∧ (g = addr ∨ addr.func = 0 ∧ MultiFunction space addr ∧
    ∃ func ≠ 0, g = ⟨addr.bus, addr.slot, func⟩ ∧ Present space g)}

/-- The functions of a bus. -/
def functionsOn (bus : UInt8) : Set DeviceAddress := {g | g ∈ functionsAt space ⟨bus, g.slot, 0⟩}

/-- A bridge on a bus leads to another one. -/
def Edge (bus : UInt8) (bridge : DeviceAddress) (bus' : UInt8) : Prop :=
  bridge ∈ functionsOn space bus ∧ Bridge space bridge ∧ secondaryBus space bridge = bus'

/-- A function of type 0, behind a chain of bridges from a bus. -/
def Behind (bus : UInt8) (x : List DeviceAddress × DeviceAddress) : Prop :=
  ∃ bus', Chain (Edge space) bus x.1 bus' ∧ x.2 ∈ functionsOn space bus' ∧ Normal space x.2

/-- A function of type 0, or one that is behind a bridge. -/
def Found (addr : DeviceAddress) (x : List DeviceAddress × DeviceAddress) : Prop :=
  Normal space addr ∧ x = ([], addr) ∨
    Bridge space addr ∧ ∃ p, x.1 = addr :: p ∧ Behind space (secondaryBus space addr) (p, x.2)

end Functions

section Found

variable {space : ConfigSpace} {addr g : DeviceAddress} {bus : UInt8} {x : List DeviceAddress × DeviceAddress}

theorem present_of_mem (h : g ∈ functionsOn space bus) : Present space g := by
  obtain ⟨h, h' | ⟨-, -, func, -, -, h'⟩⟩ := h
  · exact h' ▸ h
  · exact h'

theorem bus_eq (h : g ∈ functionsOn space bus) : g.bus = bus := by
  obtain ⟨-, h | ⟨-, -, func, -, h, -⟩⟩ := h
  · rw [h]
  · rw [h]

/-- What is behind a bus is found at one of its functions. -/
theorem behind_iff : Behind space bus x ↔ ∃ g ∈ functionsOn space bus, Found space g x := by
  obtain ⟨p, f⟩ := x
  constructor
  · rintro ⟨bus', hp, hf, hn⟩
    cases hp with
    | nil => exact ⟨f, hf, .inl ⟨hn, rfl⟩⟩
    | cons he hp =>
      obtain ⟨hg, hb, rfl⟩ := he
      exact ⟨_, hg, .inr ⟨hb, _, rfl, bus', hp, hf, hn⟩⟩
  · rintro ⟨g, hg, ⟨hn, h⟩ | ⟨hb, q, h, bus', hq, hf, hn⟩⟩
    · cases h
      exact ⟨bus, .nil, hg, hn⟩
    · obtain rfl : p = g :: q := h
      exact ⟨bus', .cons ⟨hg, hb, rfl⟩ hq, hf, hn⟩

/-- What is found at different functions is different. -/
theorem Found.unique (h : Found space addr x) (h' : Found space g x) : addr = g := by
  obtain ⟨-, rfl⟩ | ⟨-, p, hp, -⟩ := h
  · obtain ⟨-, h'⟩ | ⟨-, q, hq, -⟩ := h'
    · exact congrArg Prod.snd h'
    · cases hq
  · obtain ⟨-, rfl⟩ | ⟨-, q, hq, -⟩ := h'
    · cases hp
    · exact (List.cons.inj (hp.symm.trans hq)).1

end Found

/-- The registers and the list between two calls of `probe`. -/
structure Ready (mem : Memory) (space : ConfigSpace) (m : ManagerImpl) : Prop where
  /-- the registers are as they were -/
  space_eq : m.space = space
  /-- the list is in its block -/
  good : Good deviceInfo mem.bytes m.devices
  /-- which has grown by `push_back` -/
  pushed : m.devices.Pushed

/-- A part of the enumeration has found what there is at some functions, once each, and has left
the registers as they were. The chains of bridges behind these functions have fewer than `n`. -/
def Enumerates (mem : Memory) (space : ConfigSpace) (n : ℕ) (A : Set DeviceAddress) (m m' : ManagerImpl) : Prop :=
  ∃ found : List (List DeviceAddress × DeviceAddress), found.Nodup ∧
    (∀ x, x ∈ found ↔ ∃ g ∈ A, Found space g x) ∧
    m'.addresses = m.addresses ++ found.map Prod.snd ∧
    Ready mem space m' ∧
    ∀ g ∈ A, Bridge space g → Chain.Bounded (Edge space) n (secondaryBus space g)

/-- A part of the enumeration finds more than there is memory for. -/
def Exhausts (mem : Memory) (space : ConfigSpace) (A : Set DeviceAddress) (m : ManagerImpl) : Prop :=
  ∃ found : List (List DeviceAddress × DeviceAddress), found.Nodup ∧
    (∀ x ∈ found, ∃ g ∈ A, Found space g x) ∧
    mem.bytes < deviceInfo.sizeof * capacityAfter (m.addresses.length + found.length)

section Loops

variable {mem : Memory} {space : ConfigSpace} {n n' : ℕ} {A B : Set DeviceAddress} {m m₁ m₂ : ManagerImpl}
  {ι : Type} {l : List ι} {f : ManagerImpl → ι → Outcome ManagerImpl} {S : ι → Set DeviceAddress}

theorem Enumerates.refl (n : ℕ) (hm : Ready mem space m) : Enumerates mem space n ∅ m m := by
  refine ⟨[], List.nodup_nil, ?_, by rw [List.map_nil, List.append_nil], hm, fun g hg => absurd hg (Set.notMem_empty g)⟩
  intro x
  simp

theorem Enumerates.ready (h : Enumerates mem space n A m m₁) : Ready mem space m₁ := by
  obtain ⟨-, -, -, -, h, -⟩ := h
  exact h

theorem Enumerates.mono (h : Enumerates mem space n A m m₁) (hn : n ≤ n') : Enumerates mem space n' A m m₁ := by
  obtain ⟨found, hnd, hfound, hdev, hready, hbounded⟩ := h
  exact ⟨found, hnd, hfound, hdev, hready, fun g hg hb => (hbounded g hg hb).mono hn⟩

/-- What is found at functions of different sets is different. -/
theorem found_disjoint {found found' : List (List DeviceAddress × DeviceAddress)} (hd : Disjoint A B)
    (hfound : ∀ x ∈ found, ∃ g ∈ A, Found space g x) (hfound' : ∀ x ∈ found', ∃ g ∈ B, Found space g x) :
    found.Disjoint found' := by
  intro x hx hx'
  obtain ⟨g, hg, hgx⟩ := hfound x hx
  obtain ⟨g', hg', hgx'⟩ := hfound' x hx'
  obtain rfl := hgx.unique hgx'
  exact Set.disjoint_left.mp hd hg hg'

theorem Enumerates.trans (h : Enumerates mem space n A m m₁) (h' : Enumerates mem space n B m₁ m₂)
    (hd : Disjoint A B) : Enumerates mem space n (A ∪ B) m m₂ := by
  obtain ⟨found, hnd, hfound, hdev, -, hbounded⟩ := h
  obtain ⟨found', hnd', hfound', hdev', hready, hbounded'⟩ := h'
  refine ⟨found ++ found', List.nodup_append'.mpr ⟨hnd, hnd', ?_⟩, ?_, ?_, hready,
    fun g hg => hg.elim (hbounded g) (hbounded' g)⟩
  · exact found_disjoint hd (fun x => (hfound x).mp) fun x => (hfound' x).mp
  · intro x
    rw [List.mem_append, hfound, hfound']
    constructor
    · rintro (⟨g, hg, hx⟩ | ⟨g, hg, hx⟩)
      · exact ⟨g, .inl hg, hx⟩
      · exact ⟨g, .inr hg, hx⟩
    · rintro ⟨g, hg | hg, hx⟩
      · exact .inl ⟨g, hg, hx⟩
      · exact .inr ⟨g, hg, hx⟩
  · rw [hdev', hdev, List.map_append, List.append_assoc]

/-- The memory is exhausted in the second part. -/
theorem Enumerates.trans_exhausts (h : Enumerates mem space n A m m₁) (h' : Exhausts mem space B m₁)
    (hd : Disjoint A B) : Exhausts mem space (A ∪ B) m := by
  obtain ⟨found, hnd, hfound, hdev, -, -⟩ := h
  obtain ⟨found', hnd', hfound', hmore⟩ := h'
  refine ⟨found ++ found', List.nodup_append'.mpr ⟨hnd, hnd', ?_⟩, ?_, ?_⟩
  · exact found_disjoint hd (fun x => (hfound x).mp) hfound'
  · intro x hx
    obtain hx | hx := List.mem_append.mp hx
    · obtain ⟨g, hg, hgx⟩ := (hfound x).mp hx
      exact ⟨g, .inl hg, hgx⟩
    · obtain ⟨g, hg, hgx⟩ := hfound' x hx
      exact ⟨g, .inr hg, hgx⟩
  · rwa [hdev, List.length_append, List.length_map, Nat.add_assoc, ← List.length_append] at hmore

theorem Exhausts.subset (h : Exhausts mem space A m) (hAB : A ⊆ B) : Exhausts mem space B m := by
  obtain ⟨found, hnd, hfound, hmore⟩ := h
  refine ⟨found, hnd, fun x hx => ?_, hmore⟩
  obtain ⟨g, hg, hgx⟩ := hfound x hx
  exact ⟨g, hAB hg, hgx⟩

/-- What the rounds behind the first one look at is different from what that looks at. -/
theorem disjoint_rounds {i : ι} (h : ∀ j ∈ l, Disjoint (S i) (S j)) : Disjoint (S i) {g | ∃ j ∈ l, g ∈ S j} := by
  rw [Set.disjoint_left]
  rintro g hg ⟨j, hj, hgj⟩
  exact Set.disjoint_left.mp (h j hj) hg hgj

theorem rounds_cons (i : ι) (l : List ι) : {g | ∃ j ∈ i :: l, g ∈ S j} = S i ∪ {g | ∃ j ∈ l, g ∈ S j} := by
  ext g
  simp

/-- A loop that enumerates different functions in each round. -/
theorem Enumerates.foldlM (hm : Ready mem space m) (hS : l.Pairwise fun i j => Disjoint (S i) (S j))
    (hf : ∀ i ∈ l, ∀ m₁ m₂, Ready mem space m₁ → f m₁ i = .done m₂ → Enumerates mem space n (S i) m₁ m₂)
    (h : l.foldlM f m = .done m₂) : Enumerates mem space n {g | ∃ i ∈ l, g ∈ S i} m m₂ := by
  induction l generalizing m with
  | nil =>
    cases h
    convert refl n hm
    simp
  | cons i l ih =>
    rw [List.pairwise_cons] at hS
    rw [List.foldlM_cons, Outcome.bind_eq_done] at h
    obtain ⟨m₁, hi, hl⟩ := h
    have hfirst := hf i List.mem_cons_self m m₁ hm hi
    have hrest := ih hfirst.ready hS.2 (fun j hj => hf j (List.mem_cons_of_mem i hj)) hl
    rw [rounds_cons]
    exact hfirst.trans hrest (disjoint_rounds hS.1)

/-- Such a loop fails in one of the rounds. -/
theorem Exhausts.foldlM (hm : Ready mem space m) (hS : l.Pairwise fun i j => Disjoint (S i) (S j))
    (hf : ∀ i ∈ l, ∀ m₁ m₂, Ready mem space m₁ → f m₁ i = .done m₂ → Enumerates mem space n (S i) m₁ m₂)
    (hf' : ∀ i ∈ l, ∀ m₁, Ready mem space m₁ → f m₁ i = .abort → Exhausts mem space (S i) m₁)
    (h : l.foldlM f m = .abort) : Exhausts mem space {g | ∃ i ∈ l, g ∈ S i} m := by
  induction l generalizing m with
  | nil => cases h
  | cons i l ih =>
    rw [List.pairwise_cons] at hS
    rw [rounds_cons]
    rw [List.foldlM_cons, Outcome.bind_eq_abort] at h
    obtain hi | ⟨m₁, hi, hl⟩ := h
    · exact (hf' i List.mem_cons_self m hm hi).subset Set.subset_union_left
    · have hfirst := hf i List.mem_cons_self m m₁ hm hi
      have hrest := ih hfirst.ready hS.2 (fun j hj => hf j (List.mem_cons_of_mem i hj))
        (fun j hj => hf' j (List.mem_cons_of_mem i hj)) hl
      exact hfirst.trans_exhausts hrest (disjoint_rounds hS.1)

end Loops

section ReadConfigArea

variable {space space' : ConfigSpace} {dev : DeviceAddress} {res : List BarInfo}

theorem readConfigArea_eq : readConfigArea space dev = .done (configArea space dev) := by
  have h (is : List ℕ) (his : ∀ i ∈ is, i < configAreaNumDwords) :
      readConfigDwords space dev is = .done (is.map fun i => (space dev i).value) := by
    induction is with
    | nil => rfl
    | cons i is ih =>
      rw [readConfigDwords, readConfigDword_eq (his i List.mem_cons_self),
        ih fun j hj => his j (List.mem_cons_of_mem i hj)]
      rfl
  exact h _ fun i hi => List.mem_range.mp hi

end ReadConfigArea

section Runs

variable {mem : Memory} {junk : ℕ → DeviceInfo} {space : ConfigSpace} {fuel : ℕ} {m m' : ManagerImpl}
  {dev : DeviceAddress} {bus : UInt8}

/-- Where there is no function, `probe` does nothing. -/
theorem probe_absent (h : ¬ Present m.space dev) : probe mem junk (fuel + 1) m dev = .done m := by
  rw [probe, readConfigDword_eq (by decide), Outcome.done_bind, if_pos (not_not.mp h)]
  rfl

/-- What `probe` does with the function itself. -/
def visit (mem : Memory) (junk : ℕ → DeviceInfo) (fuel : ℕ) (m : ManagerImpl) (dev : DeviceAddress) :
    Outcome ManagerImpl :=
  let ca := configArea m.space dev
  if ca.headerType &&& headerTypeDeviceMask = 0 then do
    let (bars, space) ← readBars m.space dev
    let (devices, _) ← m.devices.pushBack deviceInfo mem.bytes junk ⟨dev, ca, bars⟩
    pure ⟨space, devices⟩
  else if ca.headerType &&& headerTypeDeviceMask = 1 then do
    Outcome.require (dev.bus = ca.primaryBus)
    probeBus mem junk fuel m ca.secondaryBus
  else .abort

theorem probe_present (h : Present m.space dev) :
    probe mem junk (fuel + 1) m dev = visit mem junk fuel m dev >>= fun m' =>
      if dev.func = 0 ∧ MultiFunction m.space dev then
        [1, 2, 3, 4, 5, 6, 7].foldlM (fun m func => probe mem junk fuel m ⟨dev.bus, dev.slot, func⟩) m'
      else pure m' := by
  rw [probe, readConfigDword_eq (by decide), Outcome.done_bind, if_neg h, readConfigArea_eq, Outcome.done_bind, visit]
  dsimp only
  by_cases hn : (configArea m.space dev).headerType &&& headerTypeDeviceMask = 0
  · rw [if_pos hn, if_pos hn]
    cases readBars m.space dev with
    | done res =>
      obtain ⟨bars, space⟩ := res
      simp only [Outcome.done_bind]
      cases m.devices.pushBack deviceInfo mem.bytes junk ⟨dev, configArea m.space dev, bars⟩ with
      | done _ => rfl
      | abort => rfl
      | running => rfl
    | abort => rfl
    | running => rfl
  · rw [if_neg hn, if_neg hn]
    by_cases hb : (configArea m.space dev).headerType &&& headerTypeDeviceMask = 1
    · rw [if_pos hb, if_pos hb]
      cases Outcome.require (dev.bus = (configArea m.space dev).primaryBus) with
      | done _ => rfl
      | abort => rfl
      | running => rfl
    · rw [if_neg hb, if_neg hb]
      rfl

/-- The new device is in the list. -/
theorem Ready.pushBack {devices : Kvector DeviceInfo} {ca : ConfigArea} {bars : List BarInfo}
    {released : List Empty} (hm : Ready mem space m)
    (h : m.devices.pushBack deviceInfo mem.bytes junk ⟨dev, ca, bars⟩ = .done (devices, released)) :
    Ready mem space ⟨space, devices⟩ ∧ (⟨space, devices⟩ : ManagerImpl).addresses = m.addresses ++ [dev] := by
  obtain ⟨hcontents, -, hgood⟩ := pushBack_eq_done deviceInfo_copyable.lawful hm.good mem.bytes_lt h
  refine ⟨⟨rfl, hgood, pushBack_pushed hm.good hm.pushed mem.bytes_lt h⟩, ?_⟩
  rw [ManagerImpl.addresses, hcontents, List.map_append]
  rfl

/-- What is found behind a bridge is behind the bus of this bridge. -/
theorem found_bridge {x : List DeviceAddress × DeviceAddress} (hb : Bridge space dev)
    (h : ∃ g ∈ functionsOn space (secondaryBus space dev), Found space g x) :
    Found space dev (dev :: x.1, x.2) :=
  .inr ⟨hb, x.1, rfl, behind_iff.mpr h⟩

theorem nodup_behind {found : List (List DeviceAddress × DeviceAddress)} (h : found.Nodup) :
    (found.map fun x => (dev :: x.1, x.2)).Nodup := by
  apply h.map
  intro x y hxy
  obtain ⟨hp, hf⟩ := Prod.mk.inj hxy
  exact Prod.ext (List.cons.inj hp).2 hf

/-- A function that is visited is listed, or the bus behind it is enumerated. -/
theorem visit_enumerates (hm : Ready mem space m)
    (hbus : ∀ m' bus, probeBus mem junk fuel m bus = .done m' →
      Enumerates mem space fuel (functionsOn space bus) m m' ∧ Chain.Bounded (Edge space) fuel bus)
    (h : visit mem junk fuel m dev = .done m') : Enumerates mem space fuel {dev} m m' := by
  obtain rfl := hm.space_eq
  rw [visit] at h
  dsimp only at h
  split_ifs at h with hn hb
  · obtain ⟨⟨bars, space'⟩, hbars, h⟩ := Outcome.bind_eq_done.mp h
    obtain ⟨⟨devices, released⟩, hpush, h⟩ := Outcome.bind_eq_done.mp h
    cases h
    obtain rfl := readBars_space hbars
    obtain ⟨hready, haddresses⟩ := hm.pushBack hpush
    have hnb : ¬ Bridge m.space dev := by
      intro hb
      exact absurd (hn.symm.trans hb) (by decide)
    refine ⟨[([], dev)], List.nodup_singleton _, ?_, haddresses, hready, ?_⟩
    · intro x
      rw [List.mem_singleton]
      constructor
      · intro hx
        exact ⟨dev, rfl, .inl ⟨hn, hx⟩⟩
      · rintro ⟨g, rfl, ⟨-, hx⟩ | ⟨hb, -⟩⟩
        · exact hx
        · exact absurd hb hnb
    · rintro g rfl hb
      exact absurd hb hnb
  · rw [Outcome.require_bind_eq_done] at h
    obtain ⟨⟨found, hnd, hfound, hdev, hready, -⟩, hbounded⟩ := hbus m' _ h.2
    have hnn : ¬ Normal m.space dev := hn
    refine ⟨found.map fun x => (dev :: x.1, x.2), nodup_behind hnd, ?_, ?_, hready, ?_⟩
    · intro x
      rw [List.mem_map]
      constructor
      · rintro ⟨y, hy, rfl⟩
        exact ⟨dev, rfl, found_bridge hb ((hfound y).mp hy)⟩
      · rintro ⟨g, rfl, ⟨hn, -⟩ | ⟨-, p, hp, hbehind⟩⟩
        · exact absurd hn hnn
        · exact ⟨_, (hfound _).mpr (behind_iff.mp hbehind), Prod.ext hp.symm rfl⟩
    · rw [hdev, List.map_map]
      rfl
    · rintro g rfl -
      exact hbounded

theorem functionsAt_of_absent (h : ¬ Present space dev) : functionsAt space dev = ∅ :=
  Set.eq_empty_iff_forall_notMem.mpr fun _ hg => h hg.1

/-- The functions that `probe` looks at, after the first one. -/
theorem functionsAt_of_multi (h : Present space dev) (hf : dev.func = 0) (hm : MultiFunction space dev) :
    functionsAt space dev =
      {dev} ∪ {g | ∃ func ∈ [1, 2, 3, 4, 5, 6, 7], g ∈ functionsAt space ⟨dev.bus, dev.slot, func⟩} := by
  have hfuncs : ∀ func : Fin 8, func ∈ [1, 2, 3, 4, 5, 6, 7] ↔ func ≠ 0 := by decide
  ext g
  constructor
  · rintro ⟨-, hg | ⟨-, -, func, h0, rfl, hg⟩⟩
    · exact .inl hg
    · exact .inr ⟨func, (hfuncs func).mpr h0, hg, .inl rfl⟩
  · rintro (hg | ⟨func, hmem, hp, hg⟩)
    · exact ⟨h, .inl hg⟩
    · have h0 := (hfuncs func).mp hmem
      obtain rfl | ⟨h0', -⟩ := hg
      · exact ⟨h, .inr ⟨hf, hm, func, h0, rfl, hp⟩⟩
      · exact absurd h0' h0

theorem functionsAt_of_single (h : Present space dev) (hm : ¬ (dev.func = 0 ∧ MultiFunction space dev)) :
    functionsAt space dev = {dev} := by
  ext g
  constructor
  · rintro ⟨-, rfl | ⟨hf, hm', -⟩⟩
    · rfl
    · exact absurd ⟨hf, hm'⟩ hm
  · intro hg
    exact ⟨h, .inl hg⟩

/-- Functions that `probe` looks at for different functions of a device are different. -/
theorem functionsAt_disjoint {f f' : Fin 8} {slot : Fin 32} (hf : f ≠ 0) (hf' : f' ≠ 0) (hne : f ≠ f') :
    Disjoint (functionsAt space ⟨bus, slot, f⟩) (functionsAt space ⟨bus, slot, f'⟩) := by
  rw [Set.disjoint_left]
  rintro g ⟨-, rfl | ⟨h0, -⟩⟩ ⟨-, hg | ⟨h0', -⟩⟩
  · exact hne (congrArg DeviceAddress.func hg)
  · exact hf' h0'
  · exact hf h0
  · exact hf h0

theorem functionsAt_pairwise {slot : Fin 32} : [1, 2, 3, 4, 5, 6, 7].Pairwise fun f f' : Fin 8 =>
    Disjoint (functionsAt space ⟨bus, slot, f⟩) (functionsAt space ⟨bus, slot, f'⟩) := by
  have hne : [1, 2, 3, 4, 5, 6, 7].Pairwise fun f f' : Fin 8 => f ≠ 0 ∧ f' ≠ 0 ∧ f ≠ f' := by decide
  exact hne.imp fun h => functionsAt_disjoint h.1 h.2.1 h.2.2

theorem slot_eq {slot : Fin 32} {f : Fin 8} {g : DeviceAddress} (h : g ∈ functionsAt space ⟨bus, slot, f⟩) :
    g.slot = slot := by
  obtain ⟨-, h | ⟨-, -, func, -, h, -⟩⟩ := h
  · rw [h]
  · rw [h]

/-- The slots of a bus are different functions. -/
theorem slots_pairwise : (List.finRange 32).Pairwise fun slot slot' : Fin 32 =>
    Disjoint (functionsAt space ⟨bus, slot, 0⟩) (functionsAt space ⟨bus, slot', 0⟩) :=
  (List.nodup_finRange 32).imp fun hne =>
    Set.disjoint_left.mpr fun _ hg hg' => hne ((slot_eq hg).symm.trans (slot_eq hg'))

theorem functionsOn_eq :
    {g | ∃ slot ∈ List.finRange 32, g ∈ functionsAt space ⟨bus, slot, 0⟩} = functionsOn space bus := by
  ext g
  constructor
  · rintro ⟨slot, -, hg⟩
    rw [functionsOn, Set.mem_ofPred_eq, slot_eq hg]
    exact hg
  · intro hg
    exact ⟨g.slot, List.mem_finRange _, hg⟩

/-- The first function is not among the others. -/
theorem functionsAt_first (hf : dev.func = 0) :
    Disjoint {dev} {g | ∃ func ∈ [1, 2, 3, 4, 5, 6, 7], g ∈ functionsAt space ⟨dev.bus, dev.slot, func⟩} := by
  rw [Set.disjoint_singleton_left]
  rintro ⟨func, hmem, -, hg | ⟨h0, -⟩⟩
  · have h0 : func = 0 := (congrArg DeviceAddress.func hg).symm.trans hf
    exact absurd hmem (h0 ▸ by decide)
  · exact absurd hmem ((show func = 0 from h0) ▸ by decide)

/-- What one call of `probe` and one of `probe_bus` find. -/
theorem probe_enumerates (mem : Memory) (junk : ℕ → DeviceInfo) (fuel : ℕ) (space : ConfigSpace) :
    (∀ m m' dev, Ready mem space m → probe mem junk fuel m dev = .done m' →
      Enumerates mem space fuel (functionsAt space dev) m m') ∧
    ∀ m m' bus, Ready mem space m → probeBus mem junk fuel m bus = .done m' →
      Enumerates mem space fuel (functionsOn space bus) m m' ∧ Chain.Bounded (Edge space) fuel bus := by
  induction fuel with
  | zero =>
    refine ⟨?_, ?_⟩
    · intro m m' dev _ h
      cases h
    · intro m m' bus _ h
      cases h
  | succ fuel ih =>
    obtain ⟨ihprobe, ihbus⟩ := ih
    refine ⟨?_, ?_⟩
    · intro m m' dev hm h
      obtain rfl := hm.space_eq
      apply Enumerates.mono _ (Nat.le_succ fuel)
      by_cases hp : Present m.space dev
      · rw [probe_present hp, Outcome.bind_eq_done] at h
        obtain ⟨m₁, hvisit, h⟩ := h
        have hfirst := visit_enumerates hm (fun m' bus => ihbus m m' bus hm) hvisit
        split_ifs at h with hmulti
        · have hrest := Enumerates.foldlM hfirst.ready functionsAt_pairwise
            (fun func _ m₁ m₂ hm₁ => ihprobe m₁ m₂ _ hm₁) h
          rw [functionsAt_of_multi hp hmulti.1 hmulti.2]
          exact hfirst.trans hrest (functionsAt_first hmulti.1)
        · cases h
          rw [functionsAt_of_single hp hmulti]
          exact hfirst
      · rw [probe_absent hp] at h
        cases h
        rw [functionsAt_of_absent hp]
        exact .refl _ hm
    · intro m m' bus hm h
      rw [probeBus] at h
      have hall := Enumerates.foldlM hm slots_pairwise (fun slot _ m₁ m₂ hm₁ => ihprobe m₁ m₂ _ hm₁) h
      rw [functionsOn_eq] at hall
      refine ⟨hall.mono (Nat.le_succ fuel), Chain.Bounded.of_edges ?_⟩
      rintro g bus' ⟨hg, hb, rfl⟩
      obtain ⟨-, -, -, -, -, hbounded⟩ := hall
      exact hbounded g hg hb

end Runs

section Termination

variable {mem : Memory} {junk : ℕ → DeviceInfo} {space : ConfigSpace} {fuel n : ℕ} {m m' : ManagerImpl}
  {dev : DeviceAddress} {bus : UInt8}

/-- A loop over calls of `probe` that come to an end. -/
theorem foldlM_ends {ι : Type} {l : List ι} {dev : ι → DeviceAddress} (hm : Ready mem space m)
    (hf : ∀ i ∈ l, ∀ m, Ready mem space m → (probe mem junk fuel m (dev i)).Ends) :
    (l.foldlM (fun m i => probe mem junk fuel m (dev i)) m).Ends := by
  induction l generalizing m with
  | nil => exact Outcome.done_ends m
  | cons i l ih =>
    rw [List.foldlM_cons]
    apply (hf i List.mem_cons_self m hm).bind
    intro m' h
    exact ih ((probe_enumerates mem junk fuel space).1 m m' _ hm h).ready fun j hj => hf j (List.mem_cons_of_mem i hj)

theorem visit_ends (h : Bridge m.space dev → (probeBus mem junk fuel m (secondaryBus m.space dev)).Ends) :
    (visit mem junk fuel m dev).Ends := by
  rw [visit]
  dsimp only
  split_ifs with hn hb
  · exact readBars_ends.bind fun _ _ => pushBack_ends.bind fun _ _ => Outcome.done_ends _
  · exact Outcome.require_ends.bind fun _ _ => h hb
  · exact fun h => by cases h

/-- A call of `probe` for one function. -/
theorem probe_ends_of_single (hs : ¬ (dev.func = 0 ∧ MultiFunction m.space dev))
    (h : Present m.space dev → Bridge m.space dev → (probeBus mem junk fuel m (secondaryBus m.space dev)).Ends) :
    (probe mem junk (fuel + 1) m dev).Ends := by
  by_cases hp : Present m.space dev
  · rw [probe_present hp]
    apply (visit_ends (h hp)).bind
    intro m' _
    rw [if_neg hs]
    exact Outcome.done_ends m'
  · rw [probe_absent hp]
    exact Outcome.done_ends m

/-- **`probe` comes to an end** if the buses behind its functions are enumerated. -/
theorem probe_ends (hm : Ready mem space m)
    (h : ∀ g ∈ functionsAt space dev, Bridge space g → ∀ m fuel, Ready mem space m → n ≤ fuel →
      (probeBus mem junk fuel m (secondaryBus space g)).Ends)
    (hfuel : n + 2 ≤ fuel) : (probe mem junk fuel m dev).Ends := by
  obtain rfl := hm.space_eq
  obtain ⟨fuel, rfl⟩ : ∃ fuel', fuel = fuel' + 1 + 1 := ⟨fuel - 2, by omega⟩
  by_cases hs : dev.func = 0 ∧ MultiFunction m.space dev
  · by_cases hp : Present m.space dev
    · rw [probe_present hp]
      have hvisit : (visit mem junk (fuel + 1) m dev).Ends :=
        visit_ends fun hb => h dev ⟨hp, .inl rfl⟩ hb m _ hm (by omega)
      apply hvisit.bind
      intro m₁ hm₁
      rw [if_pos hs]
      have hready : Ready mem m.space m₁ :=
        (visit_enumerates hm (fun m' bus => (probe_enumerates mem junk (fuel + 1) m.space).2 m m' bus hm) hm₁).ready
      have hfuncs : ∀ func ∈ [(1 : Fin 8), 2, 3, 4, 5, 6, 7], func ≠ 0 := by decide
      apply foldlM_ends hready
      intro func hmem m₂ hm₂
      have hfunc := hfuncs func hmem
      apply probe_ends_of_single fun hs' => hfunc hs'.1
      rw [hm₂.space_eq]
      intro hp' hb
      exact h _ ⟨hp, .inr ⟨hs.1, hs.2, func, hfunc, rfl, hp'⟩⟩ hb m₂ fuel hm₂ (by omega)
    · rw [probe_absent hp]
      exact Outcome.done_ends m
  · exact probe_ends_of_single hs fun hp hb => h dev ⟨hp, .inl rfl⟩ hb m _ hm (by omega)

/-- **`probe_bus` comes to an end** if the chains of bridges are bounded. -/
theorem probeBus_ends (hbounded : Chain.Bounded (Edge space) n bus) (hm : Ready mem space m) (hfuel : 3 * n ≤ fuel) :
    (probeBus mem junk fuel m bus).Ends := by
  induction n generalizing bus m fuel with
  | zero => exact absurd hbounded.pos (Nat.lt_irrefl 0)
  | succ n ih =>
    obtain ⟨fuel, rfl⟩ : ∃ fuel', fuel = fuel' + 1 := ⟨fuel - 1, by omega⟩
    rw [probeBus]
    apply foldlM_ends hm
    intro slot _ m₁ hm₁
    apply @probe_ends mem junk space fuel (3 * n) m₁ _ hm₁ _ (by omega)
    intro g hg hb m₂ fuel₂ hm₂ hfuel₂
    have hedge : Edge space bus g (secondaryBus space g) := by
      refine ⟨?_, hb, rfl⟩
      rw [functionsOn, Set.mem_ofPred_eq, slot_eq hg]
      exact hg
    exact ih (hbounded.edge hedge) hm₂ hfuel₂

end Termination

/-! ## Checks -/

/-- A function passes the checks of `probe`. -/
def Passes (space : ConfigSpace) (dev : DeviceAddress) : Prop :=
  Normal space dev ∧ readBars space dev ≠ .abort ∨ Bridge space dev ∧ dev.bus = (configArea space dev).primaryBus

/-- Every function that chains of bridges from a bus lead to passes the checks. -/
def PassesChecks (space : ConfigSpace) (bus : UInt8) : Prop :=
  ∀ p bus', Chain (Edge space) bus p bus' → ∀ g ∈ functionsOn space bus', Passes space g

section Checks

variable {mem : Memory} {junk : ℕ → DeviceInfo} {space : ConfigSpace} {fuel : ℕ} {m : ManagerImpl}
  {dev g : DeviceAddress} {bus : UInt8}

theorem PassesChecks.behind (h : PassesChecks space bus) (hg : g ∈ functionsOn space bus) (hb : Bridge space g) :
    PassesChecks space (secondaryBus space g) :=
  fun p bus' hp => h (g :: p) bus' (.cons ⟨hg, hb, rfl⟩ hp)

/-- A visit of a function that passes the checks fails for want of memory. -/
theorem visit_exhausts (hm : Ready mem space m) (hpass : Passes space dev)
    (hbus : Bridge space dev → probeBus mem junk fuel m (secondaryBus space dev) = .abort →
      Exhausts mem space (functionsOn space (secondaryBus space dev)) m)
    (h : visit mem junk fuel m dev = .abort) : Exhausts mem space {dev} m := by
  obtain rfl := hm.space_eq
  rw [visit] at h
  dsimp only at h
  obtain ⟨hn, hbars⟩ | ⟨hb, hprimary⟩ := hpass
  · have hn' : (configArea m.space dev).headerType &&& headerTypeDeviceMask = 0 := hn
    rw [if_pos hn', Outcome.bind_eq_abort] at h
    obtain h | ⟨⟨bars, space'⟩, -, h⟩ := h
    · exact absurd h hbars
    · obtain h | ⟨_, -, h⟩ := Outcome.bind_eq_abort.mp h
      · have hmore := lt_of_pushBack_abort hm.good hm.pushed mem.bytes_lt h
        refine ⟨[([], dev)], List.nodup_singleton _, fun x hx => ?_, ?_⟩
        · rw [List.mem_singleton] at hx
          exact ⟨dev, rfl, .inl ⟨hn, hx⟩⟩
        · rwa [ManagerImpl.addresses, List.length_map, length_contents]
      · cases h
  · have hnn : ¬ (configArea m.space dev).headerType &&& headerTypeDeviceMask = 0 := by
      intro hn
      exact absurd (hn.symm.trans hb) (by decide)
    have hb' : (configArea m.space dev).headerType &&& headerTypeDeviceMask = 1 := hb
    rw [if_neg hnn, if_pos hb', Outcome.require_pos hprimary] at h
    obtain ⟨found, hnd, hfound, hmore⟩ := hbus hb h
    refine ⟨found.map fun x => (dev :: x.1, x.2), nodup_behind hnd, fun x hx => ?_, ?_⟩
    · obtain ⟨y, hy, rfl⟩ := List.mem_map.mp hx
      exact ⟨dev, rfl, found_bridge hb (hfound y hy)⟩
    · rwa [List.length_map]

/-- **The enumeration fails for want of memory** where every function passes the checks. -/
theorem probe_exhausts (mem : Memory) (junk : ℕ → DeviceInfo) (fuel : ℕ) (space : ConfigSpace) :
    (∀ m dev, Ready mem space m →
      (∀ g ∈ functionsAt space dev, Passes space g ∧ (Bridge space g → PassesChecks space (secondaryBus space g))) →
      probe mem junk fuel m dev = .abort → Exhausts mem space (functionsAt space dev) m) ∧
    ∀ m bus, Ready mem space m → PassesChecks space bus → probeBus mem junk fuel m bus = .abort →
      Exhausts mem space (functionsOn space bus) m := by
  induction fuel with
  | zero =>
    refine ⟨?_, ?_⟩
    · intro m dev _ _ h
      cases h
    · intro m bus _ _ h
      cases h
  | succ fuel ih =>
    obtain ⟨ihprobe, ihbus⟩ := ih
    have hdone := probe_enumerates mem junk fuel space
    refine ⟨?_, ?_⟩
    · intro m dev hm hpass h
      obtain rfl := hm.space_eq
      by_cases hp : Present m.space dev
      · obtain ⟨hdev, hbehind⟩ := hpass dev ⟨hp, .inl rfl⟩
        rw [probe_present hp, Outcome.bind_eq_abort] at h
        obtain h | ⟨m₁, hvisit, h⟩ := h
        · have hfirst := visit_exhausts hm hdev (fun hb => ihbus m _ hm (hbehind hb)) h
          exact hfirst.subset fun g hg => ⟨hp, .inl hg⟩
        · have hfirst := visit_enumerates hm (fun m' bus => hdone.2 m m' bus hm) hvisit
          split_ifs at h with hmulti
          rw [functionsAt_of_multi hp hmulti.1 hmulti.2] at hpass ⊢
          refine hfirst.trans_exhausts (Exhausts.foldlM hfirst.ready functionsAt_pairwise
            (fun func _ m₁ m₂ hm₁ => hdone.1 m₁ m₂ _ hm₁) (fun func hmem m₁ hm₁ => ?_) h) (functionsAt_first hmulti.1)
          exact ihprobe m₁ _ hm₁ fun g hg => hpass g (.inr ⟨func, hmem, hg⟩)
      · rw [probe_absent hp] at h
        cases h
    · intro m bus hm hpass h
      rw [probeBus] at h
      rw [← functionsOn_eq]
      refine Exhausts.foldlM hm slots_pairwise (fun slot _ m₁ m₂ hm₁ => hdone.1 m₁ m₂ _ hm₁) (fun slot _ m₁ hm₁ => ?_) h
      refine ihprobe m₁ _ hm₁ fun g hg => ?_
      have hon : g ∈ functionsOn space bus := by
        rw [functionsOn, Set.mem_ofPred_eq, slot_eq hg]
        exact hg
      exact ⟨hpass [] bus .nil g hon, hpass.behind hon⟩

end Checks

/-! ## The enumeration -/

/-- Every bus that has a function of type 0 is behind one chain of bridges only. -/
def UniquelyReached (space : ConfigSpace) : Prop :=
  ∀ x y, Behind space 0 x → Behind space 0 y → x.2 = y.2 → x.1 = y.1

/-- The functions of type 0 that chains of bridges from the first bus lead to. -/
def normalFunctions (space : ConfigSpace) : Set DeviceAddress := {f | ∃ p, Behind space 0 (p, f)}

/-- There is memory for the list of these functions. -/
def Fits (mem : Memory) (space : ConfigSpace) : Prop :=
  deviceInfo.sizeof * capacityAfter (normalFunctions space).ncard ≤ mem.bytes

section Enumeration

instance finite_uint8 : Finite UInt8 := .of_injective UInt8.toFin fun _ _ h => UInt8.toFin_inj.mp h

instance finite_deviceAddress : Finite DeviceAddress :=
  .of_injective (fun dev => (dev.bus, dev.slot, dev.func)) fun dev dev' h => by
    cases dev
    cases dev'
    simpa using h

variable {mem : Memory} {junk : ℕ → DeviceInfo} {space : ConfigSpace} {fuel : ℕ} {m : ManagerImpl}

/-- Nothing is found before the enumeration. -/
theorem ready_start : Ready mem space ⟨space, .null junk⟩ := ⟨rfl, good_null junk, rfl⟩

/-- The enumeration that ends has found what is behind the first bus. -/
theorem enumerate_found (h : enumerate mem junk fuel space = .done m) :
    ∃ found : List (List DeviceAddress × DeviceAddress), found.Nodup ∧ (∀ x, x ∈ found ↔ Behind space 0 x) ∧
      m.addresses = found.map Prod.snd ∧ Ready mem space m := by
  obtain ⟨⟨found, hnd, hfound, hdev, hready, -⟩, -⟩ := (probe_enumerates mem junk fuel space).2 _ m 0 ready_start h
  exact ⟨found, hnd, fun x => (hfound x).trans behind_iff.symm, hdev, hready⟩

/-- No function is listed twice. -/
theorem nodup_iff (h : enumerate mem junk fuel space = .done m) : m.addresses.Nodup ↔ UniquelyReached space := by
  obtain ⟨found, hnd, hmem, hdev, -⟩ := enumerate_found h
  rw [hdev, List.nodup_map_iff_inj_on hnd, UniquelyReached]
  constructor
  · intro hinj x y hx hy hxy
    exact congrArg Prod.fst (hinj x ((hmem x).mpr hx) y ((hmem y).mpr hy) hxy)
  · intro hu x hx y hy hxy
    exact Prod.ext (hu x y ((hmem x).mp hx) ((hmem y).mp hy) hxy) hxy

/-- A list of all functions is in memory. -/
theorem fits_of_nodup (h : enumerate mem junk fuel space = .done m) (hnd : m.addresses.Nodup) : Fits mem space := by
  obtain ⟨found, -, hmem, hdev, hready⟩ := enumerate_found h
  have hset : normalFunctions space = {f | f ∈ m.addresses} := by
    ext f
    simp [normalFunctions, hdev, hmem]
  have hcard : (normalFunctions space).ncard = m.devices.size := by
    rw [hset, ← List.coe_toFinset, Set.ncard_coe_finset, List.toFinset_card_of_nodup hnd, ManagerImpl.addresses,
      List.length_map, length_contents]
  rw [Fits, hcard, ← hready.pushed]
  exact hready.good.capacity_le.trans hready.good.block_le

/-- There is memory for a list without repetitions, if there is for all functions. -/
theorem not_exhausts (hu : UniquelyReached space) (hfits : Fits mem space) :
    ¬ Exhausts mem space (functionsOn space 0) ⟨space, .null junk⟩ := by
  rintro ⟨found, hnd, hfound, hmore⟩
  have hbehind (x : List DeviceAddress × DeviceAddress) (hx : x ∈ found) : Behind space 0 x :=
    behind_iff.mpr (hfound x hx)
  have hnd' : (found.map Prod.snd).Nodup := by
    rw [List.nodup_map_iff_inj_on hnd]
    intro x hx y hy hxy
    exact Prod.ext (hu x y (hbehind x hx) (hbehind y hy) hxy) hxy
  have hsub : {f | f ∈ found.map Prod.snd} ⊆ normalFunctions space := by
    intro f hf
    obtain ⟨x, hx, rfl⟩ := List.mem_map.mp hf
    exact ⟨x.1, hbehind x hx⟩
  have hlength : found.length ≤ (normalFunctions space).ncard := by
    have hcard := Set.ncard_le_ncard hsub
    rwa [← List.coe_toFinset, Set.ncard_coe_finset, List.toFinset_card_of_nodup hnd', List.length_map] at hcard
  have hcapacity : deviceInfo.sizeof * capacityAfter found.length ≤ mem.bytes :=
    (Nat.mul_le_mul_left _ (capacityAfter_mono hlength)).trans hfits
  have hempty : (⟨space, .null junk⟩ : ManagerImpl).addresses.length + found.length = found.length := Nat.zero_add _
  rw [hempty] at hmore
  exact absurd hcapacity (not_le.mpr hmore)

/-- **The enumeration ends and lists no function twice** exactly if no chain of bridges from the
first bus meets a cycle, one chain only leads to each function of type 0, and there is memory for
the list of these functions. -/
theorem enumerates_iff (mem : Memory) (junk : ℕ → DeviceInfo) (hchecks : PassesChecks space 0) :
    (∃ fuel m, enumerate mem junk fuel space = .done m ∧ m.addresses.Nodup) ↔
      Chain.Acyclic (Edge space) 0 ∧ UniquelyReached space ∧ Fits mem space := by
  constructor
  · rintro ⟨fuel, m, h, hnd⟩
    exact ⟨((probe_enumerates mem junk fuel space).2 _ m 0 ready_start h).2.acyclic, (nodup_iff h).mp hnd,
      fits_of_nodup h hnd⟩
  · rintro ⟨hacyclic, hu, hfits⟩
    have hends : (enumerate mem junk (3 * Nat.card UInt8) space).Ends :=
      probeBus_ends hacyclic.bounded ready_start le_rfl
    cases h : enumerate mem junk (3 * Nat.card UInt8) space with
    | done m => exact ⟨_, m, h, (nodup_iff h).mpr hu⟩
    | abort =>
      have hexhausts := (probe_exhausts mem junk _ space).2 _ 0 ready_start hchecks h
      exact absurd hexhausts (not_exhausts hu hfits)
    | running => exact absurd h hends

end Enumeration

/-- What the heap of one mebibyte has for the list: a block for 1280 devices fits into it, but not
one of twice the size beside this. -/
def kernelHeap : Memory := ⟨2 ^ 19, by decide⟩

-- There is memory for 1280 devices.
example : deviceInfo.sizeof * capacityAfter 1280 ≤ kernelHeap.bytes ∧
    kernelHeap.bytes < deviceInfo.sizeof * capacityAfter 1281 := by
  decide +kernel

/-- The configuration space of a machine with a bridge on the first bus, and a network card on the next bus. -/
def twoBuses (secondary : UInt32) : ConfigSpace := fun addr reg =>
  if addr = ⟨0, 1, 0⟩ then
    ⟨if reg = 0 then 0x24488086 else if reg = 3 then 0x10000 else if reg = 6 then secondary <<< 8 else 0, 0⟩
  else if addr = ⟨1, 0, 0⟩ then ⟨if reg = 0 then 0x100e8086 else 0, 0⟩
  else ⟨0xffffffff, 0⟩

section TwoBuses

variable {secondary : UInt32} {dev : DeviceAddress}

theorem present_twoBuses (h : Present (twoBuses secondary) dev) : dev = ⟨0, 1, 0⟩ ∨ dev = ⟨1, 0, 0⟩ := by
  by_contra hne
  rw [not_or] at hne
  rw [Present, twoBuses, if_neg hne.1, if_neg hne.2] at h
  exact h (by decide)

theorem bridge_twoBuses : Bridge (twoBuses 0) ⟨0, 1, 0⟩ ∧ secondaryBus (twoBuses 0) ⟨0, 1, 0⟩ = 0 ∧
    Bridge (twoBuses 1) ⟨0, 1, 0⟩ ∧ secondaryBus (twoBuses 1) ⟨0, 1, 0⟩ = 1 := by
  rw [Bridge, Bridge]
  decide +kernel

theorem passesChecks_twoBuses (h : secondary = 0 ∨ secondary = 1) (bus : UInt8) :
    PassesChecks (twoBuses secondary) bus := by
  intro p bus' hp dev hdev
  obtain rfl | rfl := present_twoBuses (present_of_mem hdev)
  · right
    rw [Bridge]
    obtain rfl | rfl := h <;> decide +kernel
  · left
    have hnone (reg : ℕ) (h : reg ≠ 0) :
        (⟨.unimplemented, 0⟩ : Bar).At (twoBuses secondary) ⟨1, 0, 0⟩ reg := by
      refine ⟨?_, fun hw => absurd hw (by decide)⟩
      rw [twoBuses, if_neg (by decide), if_pos rfl, if_neg h]
      decide
    have hb : Follows (twoBuses secondary) ⟨1, 0, 0⟩ 0 (List.replicate 6 ⟨.unimplemented, 0⟩) :=
      ⟨hnone _ (by decide), hnone _ (by decide), hnone _ (by decide), hnone _ (by decide), hnone _ (by decide),
        hnone _ (by decide), rfl⟩
    refine ⟨?_, ?_⟩
    · rw [Normal]
      obtain rfl | rfl := h <;> decide +kernel
    · rw [readBars_eq hb (by decide)]
      intro habort
      cases habort

end TwoBuses

/-- **The enumeration need not end**: the number of the bus behind a bridge is zero until it is set
up. -/
theorem not_enumerates : ¬ ∀ (junk : ℕ → DeviceInfo) (space : ConfigSpace), PassesChecks space 0 →
    ∃ fuel m, enumerate kernelHeap junk fuel space = .done m ∧ m.addresses.Nodup := by
  intro hall
  obtain ⟨fuel, m, h, -⟩ := hall (fun _ => ⟨⟨0, 0, 0⟩, [], []⟩) (twoBuses 0) (passesChecks_twoBuses (.inl rfl) 0)
  have hacyclic := ((probe_enumerates kernelHeap _ fuel (twoBuses 0)).2 _ m 0 ready_start h).2.acyclic
  have hedge : Edge (twoBuses 0) 0 ⟨0, 1, 0⟩ 0 := by
    refine ⟨⟨?_, .inl rfl⟩, bridge_twoBuses.1, bridge_twoBuses.2.1⟩
    rw [Present]
    decide
  cases hacyclic [] 0 [_] .nil (.cons hedge .nil)

theorem edge_twoBuses {bus bus' : UInt8} {bridge : DeviceAddress} (h : Edge (twoBuses 1) bus bridge bus') :
    bus = 0 ∧ bridge = ⟨0, 1, 0⟩ ∧ bus' = 1 := by
  obtain ⟨hon, hbridge, rfl⟩ := h
  obtain rfl | rfl := present_twoBuses (present_of_mem hon)
  · exact ⟨(bus_eq hon).symm, rfl, bridge_twoBuses.2.2.2⟩
  · rw [Bridge] at hbridge
    exact absurd hbridge (by decide +kernel)

/-- What is behind the first bus is the network card. -/
theorem behind_twoBuses {x : List DeviceAddress × DeviceAddress} (hx : Behind (twoBuses 1) 0 x) :
    x = ([⟨0, 1, 0⟩], ⟨1, 0, 0⟩) := by
  obtain ⟨p, f⟩ := x
  obtain ⟨bus, hp, hf, hn⟩ := hx
  have hcard : f = ⟨1, 0, 0⟩ := by
    obtain rfl | h := present_twoBuses (present_of_mem hf)
    · exact absurd (hn.symm.trans bridge_twoBuses.2.2.1) (by decide)
    · exact h
  cases hp with
  | nil =>
    rw [hcard] at hf
    exact absurd (bus_eq hf) (by decide)
  | cons he hp =>
    obtain ⟨-, rfl, rfl⟩ := edge_twoBuses he
    cases hp with
    | nil => rw [hcard]
    | cons he hp => exact absurd (edge_twoBuses he).1 (by decide)

/-- The number of the bus behind the bridge has been set up. -/
theorem enumerates_iff_twoBuses : ∃ fuel m,
    enumerate kernelHeap (fun _ => ⟨⟨0, 0, 0⟩, [], []⟩) fuel (twoBuses 1) = .done m ∧ m.addresses.Nodup := by
  refine (enumerates_iff kernelHeap _ (passesChecks_twoBuses (.inr rfl) 0)).mpr ⟨?_, ?_, ?_⟩
  · have hbounded : Chain.Bounded (Edge (twoBuses 1)) 2 0 := by
      intro p bus hp
      cases hp with
      | nil => decide
      | cons he hp =>
        obtain ⟨-, -, rfl⟩ := edge_twoBuses he
        cases hp with
        | nil => exact Nat.lt_succ_self 1
        | cons he hp => exact absurd (edge_twoBuses he).1 (by decide)
    exact hbounded.acyclic
  · intro x y hx hy _
    rw [behind_twoBuses hx, behind_twoBuses hy]
  · have hsub : normalFunctions (twoBuses 1) ⊆ {⟨1, 0, 0⟩} := by
      rintro f ⟨p, hf⟩
      exact congrArg Prod.snd (behind_twoBuses hf)
    have hcard := Set.ncard_le_ncard hsub
    rw [Set.ncard_singleton] at hcard
    exact (Nat.mul_le_mul_left _ (capacityAfter_mono hcard)).trans (by decide)

end Attos.Pci
