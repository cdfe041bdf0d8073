import Attos.Lib.Bytes
import Attos.Lib.Outcome

/-!
# The memory map of the BIOS

`smap_init` in the second stage of the boot loader asks the BIOS for the descriptors of the memory
map, one after the other, and puts them into `smap_buffer`. The kernel reads them up to a
terminator.

The last descriptor comes with the continuation value zero. The loop ends on that value before the
pointer into the buffer is advanced, and so the terminator is stored over the last descriptor
(`smapInit_stores`): the list in the buffer is complete exactly if that descriptor looks like a
terminator itself (`smapInit_complete_iff`).
-/

namespace Attos.Smap

open Lib

/-- `SMAP_ID` -/
def smapId : UInt32 := 0x534D4150

/-- `SMAP_ENTRY_MIN_SIZE` -/
def smapEntryMinSize : ℕ := 20

/-- `SMAP_BUFFER_SIZE` -/
def smapBufferSize : ℕ := 1024

/-- What the BIOS answers to a call of `int 0x15` with `0xE820`. -/
structure Response : Type where
  /-- the carry flag -/
  carry : Bool
  /-- `SMAP_ID` if the call succeeded -/
  eax : UInt32
  /-- the continuation value -/
  ebx : UInt32
  /-- the number of bytes -/
  ecx : UInt32
  /-- the bytes that it stored at `es:di` -/
  bytes : List UInt8

/-- The registers of the loop, the memory, and the addresses that were written. The buffer is part
of the program and does not wrap around in its segment. -/
structure State : Type where
  /-- where the next descriptor goes -/
  di : ℕ
  /-- the bytes that are left in the buffer, without those for the terminator -/
  esi : ℕ
  /-- the memory -/
  mem : ℕ → UInt8
  /-- the addresses, the latest first -/
  writes : List ℕ

/-- Bytes are stored at `es:di`. -/
def State.store (s : State) (bytes : List UInt8) : State :=
  { s with mem := storeBytes s.mem s.di bytes, writes := List.range' s.di bytes.length ++ s.writes }

/-- The terminating entry. -/
def terminator : List UInt8 := List.replicate smapEntryMinSize 0

/-- The loop of `smap_init`. Without a response, the BIOS is still busy. -/
def smapLoop : List Response → State → Outcome State
  | [], s => if s.esi < smapEntryMinSize then .abort else .running
  | r :: rs, s =>
    if s.esi < smapEntryMinSize then .abort
    else if r.carry then .abort
    else if r.eax ≠ smapId then .abort
    else
      let s := s.store r.bytes
      if r.ebx = 0 then .done (s.store terminator)
      else if r.ecx < 20 then .abort
      else if s.esi < smapEntryMinSize then .abort
      else smapLoop rs { s with di := s.di + smapEntryMinSize, esi := s.esi - smapEntryMinSize }

/-- The memory around the boot loader, where the buffer is cleared. -/
def loaded (smapBuffer : ℕ) (rest : ℕ → UInt8) : ℕ → UInt8 := fun a =>
  if smapBuffer ≤ a ∧ a < smapBuffer + smapBufferSize then 0 else rest a

/-- `smap_init` -/
def smapInit (smapBuffer : ℕ) (rest : ℕ → UInt8) (rs : List Response) : Outcome State :=
  smapLoop rs ⟨smapBuffer, smapBufferSize - smapEntryMinSize, loaded smapBuffer rest, []⟩

/-! ## The answers of the BIOS -/

/-- A call succeeds and stores a descriptor of 20 bytes. -/
structure Response.Ok (r : Response) : Prop where
  /-- there is no error -/
  carry : r.carry = false
  /-- the signature -/
  eax : r.eax = smapId
  /-- the number of bytes -/
  ecx : r.ecx = 20
  /-- the descriptor -/
  length : r.bytes.length = smapEntryMinSize

/-- All calls succeed, and the last one says so. -/
inductive Successful : List Response → Prop where
  /-- the last descriptor -/
  | last {r : Response} : r.Ok → r.ebx = 0 → Successful [r]
  /-- a descriptor before -/
  | next {r : Response} {rs : List Response} : r.Ok → r.ebx ≠ 0 → Successful rs → Successful (r :: rs)

/-- The descriptors, one behind the other. -/
def descriptors (rs : List Response) : List UInt8 := rs.flatMap Response.bytes

/-- The descriptors and the terminator are in the buffer, and nothing else was written to. -/
structure Complete (smapBuffer : ℕ) (rs : List Response) (s : State) : Prop where
  /-- the contents of the buffer -/
  stores : Stores s.mem smapBuffer (descriptors rs ++ terminator)
  /-- the addresses -/
  writes : ∀ a ∈ s.writes, smapBuffer ≤ a ∧ a < smapBuffer + smapBufferSize

section Loop

variable {r : Response} {rs : List Response} {s s' : State} {smapBuffer a : ℕ} {rest : ℕ → UInt8} {bytes : List UInt8}

@[simp] theorem length_terminator : terminator.length = smapEntryMinSize := List.length_replicate

theorem Successful.length_pos (h : Successful rs) : 0 < rs.length := by
  cases h with
  | last _ _ => exact Nat.one_pos
  | next _ _ _ => exact Nat.succ_pos _

/-- Some descriptors that were answered have 20 bytes each. -/
theorem Successful.length_descriptors (h : Successful rs) :
    (descriptors rs).length = smapEntryMinSize * rs.length := by
  induction h with
  | last hok _ =>
    rw [descriptors, List.flatMap_singleton, hok.length, List.length_singleton, Nat.mul_one]
  | next hok _ _ ih =>
    rw [descriptors, List.flatMap_cons, List.length_append, ← descriptors, ih, hok.length, List.length_cons, Nat.mul_succ,
      Nat.add_comm]

theorem mem_store_writes : a ∈ (s.store bytes).writes ↔ (s.di ≤ a ∧ a < s.di + bytes.length) ∨ a ∈ s.writes := by
  rw [State.store, List.mem_append, List.mem_range'_1]

theorem store_mem_of_not (ha : ¬ (s.di ≤ a ∧ a < s.di + bytes.length)) : (s.store bytes).mem a = s.mem a := if_neg ha

/-- The state after the loop. -/
structure After (rs : List Response) (s s' : State) : Prop where
  /-- the descriptors but the last, and the terminator -/
  stores : Stores s'.mem s.di (descriptors rs.dropLast ++ terminator)
  /-- other bytes stay -/
  mem : ∀ a, ¬ (s.di ≤ a ∧ a < s.di + smapEntryMinSize * rs.length) → s'.mem a = s.mem a
  /-- the addresses -/
  writes : ∀ a ∈ s'.writes, a ∈ s.writes ∨ s.di ≤ a ∧ a < s.di + smapEntryMinSize * rs.length

/-- **The last step** stores the terminator where the descriptor is. -/
theorem smapLoop_last (hok : r.Ok) (hebx : r.ebx = 0) (hesi : smapEntryMinSize ≤ s.esi) :
    ∃ s', smapLoop [r] s = .done s' ∧ After [r] s s' := by
  refine ⟨(s.store r.bytes).store terminator, ?_, ?_, ?_, ?_⟩
  · rw [smapLoop, if_neg (Nat.not_lt.mpr hesi), hok.carry, if_neg Bool.false_ne_true, hok.eax, if_neg (not_not.mpr rfl)]
    exact if_pos hebx
  · exact Stores.storeBytes_self
  · intro a ha
    rw [store_mem_of_not, store_mem_of_not]
    · rw [hok.length]
      exact ha
    · exact ha
  · intro a ha
    rcases mem_store_writes.mp ha with hterminator | ha
    · exact .inr hterminator
    · rcases mem_store_writes.mp ha with hbytes | ha
      · rw [hok.length] at hbytes
        exact .inr hbytes
      · exact .inl ha

/-- The state for the next descriptor. -/
def State.advance (s : State) (bytes : List UInt8) : State :=
  { s.store bytes with di := s.di + smapEntryMinSize, esi := s.esi - smapEntryMinSize }

/-- **A step** before the last one. -/
theorem smapLoop_next (hok : r.Ok) (hebx : r.ebx ≠ 0) (hesi : smapEntryMinSize ≤ s.esi) :
    smapLoop (r :: rs) s = smapLoop rs (s.advance r.bytes) := by
  have hecx : ¬ r.ecx < 20 := by
    rw [hok.ecx]
    decide
  rw [smapLoop, if_neg (Nat.not_lt.mpr hesi), hok.carry, if_neg Bool.false_ne_true, hok.eax, if_neg (not_not.mpr rfl)]
  simp only []
  rw [if_neg hebx, if_neg hecx]
  exact if_neg (Nat.not_lt.mpr hesi)

/-- The descriptor that was stored stays in front of the others. -/
theorem After.advance (hok : r.Ok) (hrs : Successful rs) (h : After rs (s.advance r.bytes) s') :
    After (r :: rs) s s' := by
  obtain ⟨hstores, hmem, hwrites⟩ := h
  have hdi : (s.advance r.bytes).di = s.di + r.bytes.length := by
    rw [hok.length]
    rfl
  have hne : rs ≠ [] := List.ne_nil_of_length_pos hrs.length_pos
  refine ⟨?_, ?_, ?_⟩
  · rw [List.dropLast_cons_of_ne_nil hne, descriptors, List.flatMap_cons, List.append_assoc, Stores.append_iff]
    refine ⟨fun i hi => ?_, hdi ▸ hstores⟩
    rw [hmem _ (by rw [hdi]; omega)]
    exact Stores.storeBytes_self i hi
  · intro a ha
    rw [List.length_cons, Nat.mul_succ] at ha
    rw [hmem a (by rw [hdi, hok.length]; omega)]
    apply store_mem_of_not
    rw [hok.length]
    omega
  · intro a ha
    rw [List.length_cons, Nat.mul_succ]
    rcases hwrites a ha with ha | ha
    · rcases mem_store_writes.mp ha with ha | ha
      · rw [hok.length] at ha
        exact .inr (by omega)
      · exact .inl ha
    · rw [hdi, hok.length] at ha
      exact .inr (by omega)

/-- **The loop**, if there is room for all descriptors. -/
theorem smapLoop_after (h : Successful rs) (hesi : smapEntryMinSize * rs.length ≤ s.esi) :
    ∃ s', smapLoop rs s = .done s' ∧ After rs s s' := by
  induction h generalizing s with
  | last hok hebx => exact smapLoop_last hok hebx hesi
  | @next r rs hok hebx hrs ih =>
    rw [List.length_cons, Nat.mul_succ] at hesi
    have hroom : smapEntryMinSize * rs.length ≤ (s.advance r.bytes).esi := Nat.le_sub_of_add_le hesi
    obtain ⟨s', hrun, hafter⟩ := ih hroom
    rw [smapLoop_next hok hebx (by omega)]
    exact ⟨s', hrun, hafter.advance hok hrs⟩

end Loop

/-! ## The list in the buffer -/

section Init

variable {rs : List Response} {smapBuffer : ℕ} {rest : ℕ → UInt8}

/-- The descriptors are those but the last, and the last. -/
theorem descriptors_eq (hne : rs ≠ []) :
    descriptors rs = descriptors rs.dropLast ++ (rs.getLast hne).bytes := by
  conv_lhs => rw [← List.dropLast_append_getLast hne]
  rw [descriptors, List.flatMap_append, List.flatMap_singleton, ← descriptors]

theorem Successful.getLast_ok (h : Successful rs) (hne : rs ≠ []) : (rs.getLast hne).Ok := by
  induction h with
  | last hok _ => exact hok
  | next _ _ hrs ih =>
    have hne' := List.ne_nil_of_length_pos hrs.length_pos
    rw [List.getLast_cons hne']
    exact ih hne'

/-- With the terminator, they have as many bytes as all descriptors. -/
theorem Successful.length_dropLast (h : Successful rs) :
    (descriptors rs.dropLast ++ terminator).length = smapEntryMinSize * rs.length := by
  have hne := List.ne_nil_of_length_pos h.length_pos
  have hall := h.length_descriptors
  rw [descriptors_eq hne, List.length_append, (h.getLast_ok hne).length] at hall
  rw [List.length_append, length_terminator]
  exact hall

/-- Zeros are stored in the cleared buffer. -/
theorem stores_loaded {a : ℕ} (hbuffer : smapBuffer ≤ a) (hfits : a + smapEntryMinSize ≤ smapBuffer + smapBufferSize) :
    Stores (loaded smapBuffer rest) a terminator := by
  intro i hi
  rw [length_terminator] at hi
  rw [loaded, if_pos ⟨by omega, by omega⟩, view, terminator, List.getD_eq_getElem?_getD, List.getElem?_replicate,
    if_pos hi, Option.getD_some]

/-- **The buffer** holds all descriptors but the last, and then only zeros. Nothing but the buffer
is written to. -/
theorem smapInit_stores (h : Successful rs) (hfits : smapEntryMinSize * (rs.length + 1) ≤ smapBufferSize) :
    ∃ s, smapInit smapBuffer rest rs = .done s ∧
      Stores s.mem smapBuffer (descriptors rs.dropLast ++ terminator ++ terminator) ∧
      ∀ a ∈ s.writes, smapBuffer ≤ a ∧ a < smapBuffer + smapBufferSize := by
  rw [Nat.mul_succ] at hfits
  obtain ⟨s, hrun, hstores, hmem, hwrites⟩ :=
    @smapLoop_after rs ⟨smapBuffer, smapBufferSize - smapEntryMinSize, loaded smapBuffer rest, []⟩ h
      (Nat.le_sub_of_add_le hfits)
  refine ⟨s, hrun, Stores.append_iff.mpr ⟨hstores, ?_⟩, ?_⟩
  · intro i hi
    rw [h.length_dropLast]
    rw [hmem _ (by simp only []; omega)]
    exact stores_loaded (by omega) (by omega) i hi
  · intro a ha
    rcases hwrites a ha with hnil | hrange
    · exact absurd hnil List.not_mem_nil
    · simp only [] at hrange
      omega

/-- **The list is complete** exactly if the last descriptor looks like a terminator. -/
theorem smapInit_complete_iff (smapBuffer : ℕ) (rest : ℕ → UInt8) (h : Successful rs)
    (hfits : smapEntryMinSize * (rs.length + 1) ≤ smapBufferSize) :
    (∃ s, smapInit smapBuffer rest rs = .done s ∧ Complete smapBuffer rs s) ↔
      ∀ r ∈ rs.getLast?, r.bytes = terminator := by
  have hne := List.ne_nil_of_length_pos h.length_pos
  obtain ⟨s, hrun, hstores, hwrites⟩ := @smapInit_stores rs smapBuffer rest h hfits
  rw [List.getLast?_eq_some_getLast hne]
  constructor
  · rintro ⟨s', hrun', hcomplete⟩ r hr
    obtain rfl : s = s' := Outcome.done.inj (hrun.symm.trans hrun')
    obtain rfl : rs.getLast hne = r := Option.some.inj hr
    have hlist := hcomplete.stores.unique hstores (by
      rw [List.length_append, List.length_append, h.length_descriptors, h.length_dropLast])
    rw [descriptors_eq hne] at hlist
    exact List.append_cancel_left (List.append_cancel_right hlist)
  · intro hlast
    refine ⟨s, hrun, ?_, hwrites⟩
    rw [descriptors_eq hne, hlast _ rfl]
    exact hstores

end Init

/-- The memory from 1 MB on. -/
def highMemory : List UInt8 :=
  [0, 0, 0x10, 0, 0, 0, 0, 0,
   0, 0, 0xee, 0x07, 0, 0, 0, 0,
   1, 0, 0, 0]

/-- The BIOS knows one area of memory. -/
def oneArea : List Response := [⟨false, smapId, 0, 20, highMemory⟩]

theorem successful_oneArea : Successful oneArea := .last ⟨rfl, rfl, rfl, rfl⟩ rfl

/-- A list that ends with zeros. -/
def blankArea : List Response := [⟨false, smapId, 1, 20, highMemory⟩, ⟨false, smapId, 0, 20, terminator⟩]

theorem successful_blankArea : Successful blankArea :=
  .next ⟨rfl, rfl, rfl, rfl⟩ (by decide) (.last ⟨rfl, rfl, rfl, rfl⟩ rfl)

/-- Such a list is complete. -/
theorem smapInit_complete_blankArea :
    ∃ s, smapInit 0x8000 (fun _ => 0xcc) blankArea = .done s ∧ Complete 0x8000 blankArea s :=
  (smapInit_complete_iff 0x8000 (fun _ => 0xcc) successful_blankArea (by decide)).mpr
    (by decide)

/-- The only area is lost. -/
theorem not_smapInit_complete : ¬ ∀ smapBuffer rest rs, Successful rs →
    smapEntryMinSize * (rs.length + 1) ≤ smapBufferSize →
    ∃ s, smapInit smapBuffer rest rs = .done s ∧ Complete smapBuffer rs s := by
  intro h
  obtain ⟨s, hrun, hcomplete⟩ := h 0x8000 (fun _ => 0xcc) oneArea successful_oneArea (by decide)
  obtain ⟨s', hrun', hstores, -⟩ :=
    @smapInit_stores _ 0x8000 (fun _ => 0xcc) successful_oneArea (by decide)
  obtain rfl : s = s' := Outcome.done.inj (hrun.symm.trans hrun')
  have hlist := hcomplete.stores.unique hstores (by decide)
  exact absurd hlist (by decide)

end Attos.Smap
