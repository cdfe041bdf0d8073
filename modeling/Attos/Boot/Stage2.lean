import Attos.Boot.Stage1
import Attos.Lib.StringOps
import Attos.Lib.Word
import Attos.PageTables

/-!
# The page tables of the boot loader

`test_longmode` in `bootloader/stage2.asm` builds the page tables that are in use when the kernel is
entered. It clears the scratch area, maps the first gigabyte of physical memory at `0` and at
`IDENTITY_MAP_START`, copies the kernel image and maps the copy at `ImageBase`. It does so for the
images that keep to some limits (`Limits`), of which a comment in the source gives a part.

The processor then translates exactly the addresses of these three ranges (`testLongmode_translates`).
-/

namespace Attos.Boot

open Lib

/-! ## The code -/

/-- `SCRATCH_SIZE` -/
def scratchSize : ℕ := 0x90000 - scratchAddress

/-- `pml4`, the first page of the scratch area. -/
def pml4 : ℕ := scratchAddress

/-- `pdpt0` -/
def pdpt0 : ℕ := pml4 + 4096

/-- `pdpt511` -/
def pdpt511 : ℕ := pdpt0 + 4096

/-- `pdt_id` -/
def pdtId : ℕ := pdpt511 + 4096

/-- `pdt_program` -/
def pdtProgram : ℕ := pdtId + 4096

/-- `pt_program` -/
def ptProgram : ℕ := pdtProgram + 4096

/-- `stage3_copy` -/
def stage3Copy : ℕ := ptProgram + 4096

/-- `IDENTITY_MAP_START` -/
def identityMapStart : ℕ := 0xFFFFFFFF00000000

/-- Where the scratch area ends. -/
theorem scratch_end : scratchAddress + scratchSize = 0x90000 := rfl

theorem pml4_eq : pml4 = 0x40000 := rfl

theorem pdpt0_eq : pdpt0 = 0x41000 := rfl

theorem pdpt511_eq : pdpt511 = 0x42000 := rfl

theorem pdtId_eq : pdtId = 0x43000 := rfl

theorem pdtProgram_eq : pdtProgram = 0x44000 := rfl

theorem ptProgram_eq : ptProgram = 0x45000 := rfl

theorem stage3Copy_eq : stage3Copy = 0x46000 := rfl

theorem identityMapStart_eq : identityMapStart = 0xFFFFFFFF00000000 := rfl

/-- `PAGEF_PRESENT | PAGEF_WRITE` -/
def pagefPresentWrite : ℕ := 0x01 ||| 0x02

/-- `PAGEF_PAGESIZE` -/
def pagefPagesize : ℕ := 0x80

/-- `rep stosd` -/
def repStosd (eax : ℕ) : ℕ → Memory → ℕ → Memory
  | 0, m, _ => m
  | ecx + 1, m, edi => repStosd eax ecx (store32 m edi eax) (u32 (edi + 4))

/-- `set_page_entry` -/
def setPageEntry (m : Memory) (dest hi lo : ℕ) : Memory :=
  let m := store32 m dest lo
  let m := store32 m dest (le32 m dest ||| pagefPresentWrite)
  store32 m (u32 (dest + 4)) hi

/-- `.initidmap` and `.initpage2`: one entry after the other, for pages of `size` bytes. -/
def initPages (size : ℕ) : ℕ → Memory → ℕ → ℕ → ℕ → Outcome Memory
  | 0, _, _, _, _ => .running
  | fuel + 1, m, edi, esi, ecx =>
    let m := setPageEntry m edi 0 esi
    let esi := u32 (esi + size)
    let edi := u32 (edi + 8)
    let ecx := sub32 ecx 1
    if ecx = 0 then .done m else initPages size fuel m edi esi ecx

/-- The scratch area up to `.initidmap`. -/
def initIdentityMap (fuel : ℕ) (m : Memory) : Outcome Memory :=
  let m := repStosd 0 (scratchSize / 4) m scratchAddress
  let m := setPageEntry m pml4 0 pdpt0
  let m := setPageEntry m (pml4 + (identityMapStart >>> 39 &&& 511) * 8) 0 pdpt511
  let m := setPageEntry m pdpt0 0 pdtId
  let m := setPageEntry m (pdpt511 + (identityMapStart >>> 30 &&& 511) * 8) 0 pdtId
  initPages (2 <<< 20) fuel m pdtId pagefPagesize 512

/-- The `IMAGE_NT_HEADERS*` of the image, from `e_lfanew`. -/
def ntHeaders (m : Memory) (stage3 : ℕ) : ℕ := u32 (stage3 + le32 m (stage3 + 0x3c))

/-- The `IMAGE_SECTION_HEADER*` behind the optional header. -/
def sectionHeaders (m : Memory) (esi : ℕ) : ℕ := u32 (le16 m (esi + 4 + 16) + esi + 24)

/-- `.sections`: `eax` sections are left, and `ecx` is the largest extent so far. -/
def sections (m : Memory) : ℕ → ℕ → ℕ → ℕ
  | 0, _, ecx => ecx
  | eax + 1, edi, ecx =>
    let ebx := u32 (le32 m (edi + 20) + le32 m (edi + 16))
    sections m eax (u32 (edi + 40)) (if ebx ≤ ecx then ecx else ebx)

/-- `NumberOfSections` -/
def numberOfSections (m : Memory) (esi : ℕ) : ℕ := le16 m (esi + 4 + 2)

/-- The section with the largest physical extent. -/
def largestExtent (m : Memory) (esi : ℕ) : ℕ := sections m (numberOfSections m esi) (sectionHeaders m esi) 0

/-- The general registers. -/
structure Registers : Type where
  /-- `eax` -/
  eax : ℕ
  /-- `ecx` -/
  ecx : ℕ
  /-- `edx` -/
  edx : ℕ
  /-- `ebx` -/
  ebx : ℕ
  /-- `esp` -/
  esp : ℕ
  /-- `ebp` -/
  ebp : ℕ
  /-- `esi` -/
  esi : ℕ
  /-- `edi` -/
  edi : ℕ

/-- `pushad` -/
def pushad (m : Memory) (r : Registers) : Memory × Registers :=
  let m := store32 m (sub32 r.esp 4) r.eax
  let m := store32 m (sub32 r.esp 8) r.ecx
  let m := store32 m (sub32 r.esp 12) r.edx
  let m := store32 m (sub32 r.esp 16) r.ebx
  let m := store32 m (sub32 r.esp 20) r.esp
  let m := store32 m (sub32 r.esp 24) r.ebp
  let m := store32 m (sub32 r.esp 28) r.esi
  let m := store32 m (sub32 r.esp 32) r.edi
  (m, { r with esp := sub32 r.esp 32 })

/-- `popad` -/
def popad (m : Memory) (r : Registers) : Registers where
  edi := le32 m r.esp
  esi := le32 m (u32 (r.esp + 4))
  ebp := le32 m (u32 (r.esp + 8))
  esp := u32 (r.esp + 32)
  ebx := le32 m (u32 (r.esp + 16))
  edx := le32 m (u32 (r.esp + 20))
  ecx := le32 m (u32 (r.esp + 24))
  eax := le32 m (u32 (r.esp + 28))

/-- `rep movsb` from `stage3` to `stage3_copy`, between `pushad` and `popad`. -/
def copyStage3 (m : Memory) (stage3 : ℕ) (r : Registers) : Memory × Registers :=
  let (m, r) := pushad m r
  let m := movs (fun a => u32 (a + 1)) r.ecx m stage3 stage3Copy
  (m, popad m r)

/-- `SizeOfImage` -/
def sizeOfImage (m : Memory) (esi : ℕ) : ℕ := le32 m (esi + 24 + 56)

/-- `shrd` -/
def shrd (dst src n : ℕ) : ℕ := dst >>> n ||| u32 (src <<< (32 - n))

/-- The part of the code that maps the image. The index into the first table is computed as well, but
not used: the table for the program is assumed to be `pdpt511`. -/
def mapStage3 (fuel : ℕ) (m : Memory) (esi : ℕ) : Outcome Memory :=
  let eax := shrd (le32 m (esi + 24 + 24)) (le32 m (esi + 24 + 28)) 12
  let m := setPageEntry m (u32 ((eax >>> (30 - 12) &&& 511) <<< 3 + pdpt511)) 0 pdtProgram
  let m := setPageEntry m (u32 ((eax >>> (21 - 12) &&& 511) <<< 3 + pdtProgram)) 0 ptProgram
  let ecx := sizeOfImage m esi >>> 12
  initPages 4096 fuel m ptProgram stage3Copy ecx

/-- `test_longmode` up to the load of `cr3`, where `r` is what the other registers hold before the
copy. -/
def testLongmode (fuel stage3 : ℕ) (r : Registers) (m : Memory) : Outcome Memory := do
  let m ← initIdentityMap fuel m
  let esi := ntHeaders m stage3
  let (m, r) := copyStage3 m stage3 { r with ecx := largestExtent m esi, esi := esi }
  mapStage3 fuel m r.esi

/-! ## The processor -/

/-- The words of the page tables. -/
def tables (m : Memory) : PhysicalMemory := fun table i => BitVec.ofNat 64 (le64 m (table.toNat + 8 * i))

/-- Where the processor finds an address, with `pml4` in `cr3`. -/
def translate (m : Memory) (virt : Word) : Option ℕ :=
  match virtToPhys (tables m) (BitVec.ofNat 64 pml4) virt with
  | .done phys => some phys.toNat
  | _ => none

/-- The byte that is read at an address. -/
def readVirtual (m : Memory) (virt : Word) : Option UInt8 := (translate m virt).map m

/-! ## Stores -/

section Stores

variable {m m' : Memory} {a d lo hi i k n size table table' edi esi fuel : ℕ}

/-- A word of a page. -/
def entry (m : Memory) (table i : ℕ) : ℕ := le64 m (table + 8 * i)

/-- Two memories agree outside of a block. -/
def Keeps (m m' : Memory) (lo hi : ℕ) : Prop := ∀ a, a < lo ∨ hi ≤ a → m' a = m a

theorem Keeps.mono (h : Keeps m m' lo hi) {lo' hi' : ℕ} (hlo : lo' ≤ lo) (hhi : hi ≤ hi') : Keeps m m' lo' hi' :=
  fun a ha => h a (by omega)

theorem Keeps.trans {m'' : Memory} (h : Keeps m m' lo hi) (h' : Keeps m' m'' lo hi) : Keeps m m'' lo hi :=
  fun a ha => (h' a ha).trans (h a ha)

theorem Keeps.le32 (h : Keeps m m' lo hi) (ha : a + 4 ≤ lo ∨ hi ≤ a) : le32 m' a = Lib.le32 m a :=
  le32_congr fun i hi => h _ (by omega)

theorem Keeps.le16 (h : Keeps m m' lo hi) (ha : a + 2 ≤ lo ∨ hi ≤ a) : le16 m' a = Lib.le16 m a :=
  le16_congr fun i hi => h _ (by omega)

theorem Keeps.le64 (h : Keeps m m' lo hi) (ha : a + 8 ≤ lo ∨ hi ≤ a) : le64 m' a = Lib.le64 m a :=
  le64_congr fun i hi => h _ (by omega)

theorem or_present_write_lt (h : n < 2 ^ 32) : n ||| pagefPresentWrite < 2 ^ 32 := Nat.or_lt_two_pow h (by decide)

/-- `rep stosd` changes the words that it stores. -/
theorem repStosd_keeps (eax ecx : ℕ) (m : Memory) (edi : ℕ) (h : edi + 4 * ecx ≤ 2 ^ 32) :
    Keeps m (repStosd eax ecx m edi) edi (edi + 4 * ecx) := by
  induction ecx generalizing m edi with
  | zero => exact fun a _ => rfl
  | succ ecx ih =>
    intro a ha
    rw [repStosd]
    cases ecx with
    | zero => exact store32_of_not (by omega)
    | succ ecx =>
      rw [u32_of_lt (by omega)]
      exact (ih _ _ (by omega) a (by omega)).trans (store32_of_not (by omega))

/-- Zeros are stored. -/
theorem repStosd_zero (ecx : ℕ) (m : Memory) (edi : ℕ) (h : edi + 4 * ecx ≤ 2 ^ 32) (hlo : edi ≤ a)
    (hhi : a < edi + 4 * ecx) : repStosd 0 ecx m edi a = 0 := by
  induction ecx generalizing m edi with
  | zero => omega
  | succ ecx ih =>
    rw [repStosd]
    by_cases hfirst : a < edi + 4
    · have hkeep : repStosd 0 ecx (store32 m edi 0) (u32 (edi + 4)) a = store32 m edi 0 a := by
        cases ecx with
        | zero => rfl
        | succ ecx =>
          rw [u32_of_lt (by omega)]
          exact repStosd_keeps 0 (ecx + 1) _ _ (by omega) a (.inl hfirst)
      have hstored : Stores (store32 m edi 0) edi (putLe32 0) := Stores.storeBytes_self
      have hbyte := hstored (a - edi) (by rw [length_putLe32]; omega)
      rw [Nat.add_sub_cancel' hlo] at hbyte
      rw [hkeep, hbyte]
      have hoff : a - edi < 4 := by omega
      generalize a - edi = j at hoff
      interval_cases j <;> rfl
    · cases ecx with
      | zero => omega
      | succ ecx =>
        rw [u32_of_lt (by omega)]
        exact ih _ _ (by omega) (by omega) (by omega)

/-- **One entry is set.** -/
theorem setPageEntry_spec (m : Memory) (d lo : ℕ) (hd : d + 8 ≤ 2 ^ 32) (hlo : lo < 2 ^ 32) :
    le64 (setPageEntry m d 0 lo) d = lo ||| pagefPresentWrite ∧ Keeps m (setPageEntry m d 0 lo) d (d + 8) := by
  rw [setPageEntry, le32_store32 m d hlo, u32_of_lt (by omega)]
  constructor
  · rw [le64_store32_store32 _ d (or_present_write_lt hlo) (by decide), Nat.mul_zero, Nat.add_zero]
  · intro a ha
    rw [store32_of_not (by omega), store32_of_not (by omega), store32_of_not (by omega)]

/-- The words of the pages after an entry is set. -/
theorem entry_setPageEntry (m : Memory) (table k lo : ℕ) (htable : table % 4096 = 0) (hk : k < 512) (hfits : table + 4096 ≤ 2 ^ 32)
    (hlo : lo < 2 ^ 32) :
    Keeps m (setPageEntry m (table + 8 * k) 0 lo) table (table + 4096) ∧
      ∀ table' i, table' % 4096 = 0 → i < 512 → entry (setPageEntry m (table + 8 * k) 0 lo) table' i =
        if table' = table ∧ i = k then lo ||| pagefPresentWrite else entry m table' i := by
  obtain ⟨hset, hkeep⟩ := setPageEntry_spec m (table + 8 * k) lo (by omega) hlo
  refine ⟨hkeep.mono (by omega) (by omega), fun table' i htable' hi => ?_⟩
  split
  · next heq =>
    obtain ⟨rfl, rfl⟩ := heq
    exact hset
  · next hne => exact hkeep.le64 (by omega)

/-- **The loop** sets one entry after the other. -/
theorem initPages_spec (hn : 0 < n) (hfuel : n ≤ fuel) (hedi : edi + 8 * n ≤ 2 ^ 32)
    (hesi : esi + size * n ≤ 2 ^ 32) (hsize : 0 < size) (hcount : n < 2 ^ 32) :
    ∃ m', initPages size fuel m edi esi n = .done m' ∧
      (∀ i < n, le64 m' (edi + 8 * i) = (esi + size * i) ||| pagefPresentWrite) ∧ Keeps m m' edi (edi + 8 * n) := by
  induction n generalizing fuel m edi esi with
  | zero => exact absurd hn (Nat.lt_irrefl 0)
  | succ n ih =>
    obtain ⟨fuel, rfl⟩ := Nat.exists_eq_succ_of_ne_zero (by omega : fuel ≠ 0)
    rw [Nat.mul_succ] at hesi
    obtain ⟨hset, hkeep⟩ := setPageEntry_spec m edi esi (by omega) (by omega)
    rw [initPages, sub32_of_le (by omega) hcount, Nat.add_sub_cancel]
    cases n with
    | zero =>
      refine ⟨_, if_pos rfl, fun i hi => ?_, hkeep⟩
      obtain rfl : i = 0 := by omega
      exact hset
    | succ n =>
      have hpos : 0 < size * (n + 1) := Nat.mul_pos hsize n.succ_pos
      rw [if_neg n.succ_ne_zero, u32_of_lt (by omega : edi + 8 < 2 ^ 32), u32_of_lt (by omega : esi + size < 2 ^ 32)]
      obtain ⟨m', hrun, hentries, hrest⟩ := @ih (setPageEntry m edi 0 esi) (edi + 8) (esi + size) fuel n.succ_pos
        (by omega) (by omega) (by omega) (by omega)
      refine ⟨m', hrun, fun i hi => ?_, fun a ha => ?_⟩
      · cases i with
        | zero => exact (hrest.le64 (.inl (by omega))).trans hset
        | succ i =>
          have hplace : edi + 8 * (i + 1) = edi + 8 + 8 * i := by omega
          have hvalue : esi + size * (i + 1) = esi + size + size * i := by rw [Nat.mul_succ]; omega
          rw [hplace, hvalue]
          exact hentries i (Nat.lt_of_succ_lt_succ hi)
      · exact (hrest a (by omega)).trans (hkeep a (by omega))

/-- The words of the pages after the loop over a table. -/
theorem entry_initPages (hn : 0 < n) (hfuel : n ≤ fuel) (hmax : n ≤ 512) (htable : table % 4096 = 0)
    (hfits : table + 4096 ≤ 2 ^ 32) (hesi : esi + size * n ≤ 2 ^ 32) (hsize : 0 < size) :
    ∃ m', initPages size fuel m table esi n = .done m' ∧ Keeps m m' table (table + 4096) ∧
      ∀ table' i, table' % 4096 = 0 → i < 512 →
        entry m' table' i = if table' = table ∧ i < n then (esi + size * i) ||| pagefPresentWrite else entry m table' i := by
  obtain ⟨m', hrun, hentries, hkeep⟩ := @initPages_spec m n size table esi fuel hn hfuel (by omega) hesi hsize (by omega)
  refine ⟨m', hrun, hkeep.mono le_rfl (by omega), fun table' i htable' hi => ?_⟩
  split
  · next heq =>
    obtain ⟨rfl, hlt⟩ := heq
    exact hentries i hlt
  · next hne => exact hkeep.le64 (by omega)

end Stores

/-! ## The copy of the image -/

section Copy

variable {m : Memory} {src dst a n i stage3 esi : ℕ}

/-- Addresses of 32 bits follow each other. -/
theorem iterate_next (h : a + i < 2 ^ 32) : (fun a => u32 (a + 1))^[i] a = a + i := by
  induction i with
  | zero => rfl
  | succ i ih =>
    rw [Function.iterate_succ_apply', ih (by omega)]
    exact u32_of_lt h

/-- `esi` is on the stack, and nothing else has changed. -/
theorem pushad_spec {r : Registers} (hesp : 32 ≤ r.esp) (hlt : r.esp < 2 ^ 32) (hesi : r.esi < 2 ^ 32) :
    (pushad m r).2 = { r with esp := r.esp - 32 } ∧ le32 (pushad m r).1 (r.esp - 28) = r.esi ∧
      Keeps m (pushad m r).1 (r.esp - 32) r.esp := by
  have hsub {n : ℕ} (hn : n ≤ 32) : sub32 r.esp n = r.esp - n := sub32_of_le (hn.trans hesp) hlt
  rw [pushad, hsub (by decide), hsub (by decide), hsub (by decide), hsub (by decide), hsub (by decide),
    hsub (by decide), hsub (by decide), hsub le_rfl]
  refine ⟨rfl, ?_, fun a ha => ?_⟩
  · rw [le32_store32_of_apart (.inr (by omega)), le32_store32 _ _ hesi]
  · dsimp only
    rw [store32_of_not (by omega), store32_of_not (by omega), store32_of_not (by omega), store32_of_not (by omega),
      store32_of_not (by omega), store32_of_not (by omega), store32_of_not (by omega), store32_of_not (by omega)]

/-- **The copy** has the bytes of a source that lies in front of it. -/
theorem movs_copies (m : Memory) (hsrc : src + n ≤ dst) (hdst : dst + n ≤ 2 ^ 32) :
    (∀ i < n, movs (fun a => u32 (a + 1)) n m src dst (dst + i) = m (src + i)) ∧
      Keeps m (movs (fun a => u32 (a + 1)) n m src dst) dst (dst + n) := by
  have hplace : ∀ i < n, (fun a => u32 (a + 1))^[i] dst = dst + i := fun i hi => iterate_next (by omega)
  have hsource : ∀ i < n, (fun a => u32 (a + 1))^[i] src = src + i := fun i hi => iterate_next (by omega)
  constructor
  · intro i hi
    rw [← hplace i hi, ← hsource i hi]
    refine movs_apart (fun i hi j hj heq => ?_) (fun i hi j hj => ?_) hi
    · rw [hplace i hi, hplace j hj] at heq
      exact Nat.add_left_cancel heq
    · rw [hsource i hi, hplace j (hj.trans hi)]
      omega
  · intro a ha
    apply movs_other
    intro i hi
    rw [hplace i hi]
    omega

/-- **The image is copied**, and `esi` is as before, if the stack is in front of the image. -/
theorem copyStage3_spec {r : Registers} (hesp : 32 ≤ r.esp) (hstack : r.esp ≤ stage3)
    (hextent : stage3 + r.ecx ≤ stage3Copy) (hesi : r.esi < 2 ^ 32) :
    (copyStage3 m stage3 r).2.esi = r.esi ∧
      (∀ i < r.ecx, (copyStage3 m stage3 r).1 (stage3Copy + i) = m (stage3 + i)) ∧
      ∀ a, a < r.esp - 32 ∨ r.esp ≤ a → a < stage3Copy ∨ stage3Copy + r.ecx ≤ a →
        (copyStage3 m stage3 r).1 a = m a := by
  have hcopy := stage3Copy_eq
  obtain ⟨hregs, hsaved, hpush⟩ := @pushad_spec m r hesp (by omega) hesi
  rw [copyStage3]
  generalize pushad m r = pushed at hregs hsaved hpush ⊢
  obtain ⟨m₁, r₁⟩ := pushed
  obtain rfl : r₁ = { r with esp := r.esp - 32 } := hregs
  obtain ⟨hcopied, hkeep⟩ := movs_copies m₁ (by omega : stage3 + r.ecx ≤ stage3Copy) (by omega)
  have hplace : u32 (r.esp - 32 + 4) = r.esp - 28 := by
    rw [u32_of_lt (by omega)]
    omega
  refine ⟨?_, fun i hi => ?_, fun a hstack hdst => ?_⟩
  · dsimp only [popad]
    rw [hplace, hkeep.le32 (.inl (by omega)), hsaved]
  · exact (hcopied i hi).trans (hpush _ (.inr (by omega)))
  · exact (hkeep a hdst).trans (hpush a hstack)

end Copy

/-! ## The tables -/

/-- The entries for the identity maps. -/
def identityEntry (table i : ℕ) : ℕ :=
  if table = pdtId ∧ i < 512 then (pagefPagesize + 2 <<< 20 * i) ||| pagefPresentWrite
  else if table = pdpt511 ∧ i = 508 then pdtId ||| pagefPresentWrite
  else if table = pdpt0 ∧ i = 0 then pdtId ||| pagefPresentWrite
  else if table = pml4 ∧ i = 511 then pdpt511 ||| pagefPresentWrite
  else if table = pml4 ∧ i = 0 then pdpt0 ||| pagefPresentWrite
  else 0

/-- All entries. The image has `n` pages, in the table that the entries `p` and `d` lead to. -/
def bootEntry (p d n table i : ℕ) : ℕ :=
  if table = ptProgram ∧ i < n then (stage3Copy + 4096 * i) ||| pagefPresentWrite
  else if table = pdtProgram ∧ i = d then ptProgram ||| pagefPresentWrite
  else if table = pdpt511 ∧ i = p then pdtProgram ||| pagefPresentWrite
  else identityEntry table i

/-- A page table in the scratch area. -/
structure IsTable (table : ℕ) : Prop where
  /-- it is a page -/
  aligned : table % 4096 = 0
  /-- it is in the scratch area -/
  lo : scratchAddress ≤ table
  /-- it is in front of the copy of the image -/
  hi : table + 4096 ≤ stage3Copy

section Tables

variable {m : Memory} {table i fuel : ℕ}

/-- The words of the cleared pages. -/
theorem entry_cleared (m : Memory) (htable : IsTable table) (hi : i < 512) :
    entry (repStosd 0 (scratchSize / 4) m scratchAddress) table i = 0 := by
  have hsize : scratchAddress + 4 * (scratchSize / 4) = 0x90000 := rfl
  have hcopy := stage3Copy_eq
  have hlo := htable.lo
  have hhi := htable.hi
  have hzero : ∀ j < 8, repStosd 0 (scratchSize / 4) m scratchAddress (table + 8 * i + j) = 0 := by
    intro j hj
    exact repStosd_zero _ m _ (by omega) (by omega) (by omega)
  have hword : entry (repStosd 0 (scratchSize / 4) m scratchAddress) table i = le64 (fun _ => 0) (table + 8 * i) :=
    le64_congr hzero
  rw [hword]
  rfl

/-- **The identity maps.** Where no entry is, the scratch area is zero. -/
theorem initIdentityMap_spec (m : Memory) (hfuel : 512 ≤ fuel) :
    ∃ m', initIdentityMap fuel m = .done m' ∧ Keeps m m' scratchAddress (scratchAddress + scratchSize) ∧
      (∀ a, stage3Copy ≤ a → a < scratchAddress + scratchSize → m' a = 0) ∧
      ∀ table i, IsTable table → i < 512 → entry m' table i = identityEntry table i := by
  have hlast : pml4 + (identityMapStart >>> 39 &&& 511) * 8 = pml4 + 8 * 511 := rfl
  have hupper : pdpt511 + (identityMapStart >>> 30 &&& 511) * 8 = pdpt511 + 8 * 508 := rfl
  have hpml4 := pml4_eq
  have hpdpt0 := pdpt0_eq
  have hpdpt511 := pdpt511_eq
  have hpdtId := pdtId_eq
  have hcopy := stage3Copy_eq
  have hscratch := scratchAddress_eq
  have hend := scratch_end
  rw [initIdentityMap, hlast, hupper]
  have hclear := repStosd_keeps 0 (scratchSize / 4) m scratchAddress (by decide)
  have hzero := fun a => @repStosd_zero a (scratchSize / 4) m scratchAddress (by decide)
  have hcleared := fun table i => @entry_cleared table i m
  generalize repStosd 0 (scratchSize / 4) m scratchAddress = m₀ at hclear hzero hcleared ⊢
  obtain ⟨k₁, h₁⟩ := entry_setPageEntry m₀ pml4 0 pdpt0 rfl (by decide) (by decide) (by decide)
  change Keeps m₀ (setPageEntry m₀ pml4 0 pdpt0) _ _ at k₁
  change ∀ table' i, _ → _ → entry (setPageEntry m₀ pml4 0 pdpt0) table' i = _ at h₁
  generalize setPageEntry m₀ pml4 0 pdpt0 = m₁ at k₁ h₁ ⊢
  obtain ⟨k₂, h₂⟩ := entry_setPageEntry m₁ pml4 511 pdpt511 rfl (by decide) (by decide) (by decide)
  generalize setPageEntry m₁ (pml4 + 8 * 511) 0 pdpt511 = m₂ at k₂ h₂ ⊢
  obtain ⟨k₃, h₃⟩ := entry_setPageEntry m₂ pdpt0 0 pdtId rfl (by decide) (by decide) (by decide)
  change Keeps m₂ (setPageEntry m₂ pdpt0 0 pdtId) _ _ at k₃
  change ∀ table' i, _ → _ → entry (setPageEntry m₂ pdpt0 0 pdtId) table' i = _ at h₃
  generalize setPageEntry m₂ pdpt0 0 pdtId = m₃ at k₃ h₃ ⊢
  obtain ⟨k₄, h₄⟩ := entry_setPageEntry m₃ pdpt511 508 pdtId rfl (by decide) (by decide) (by decide)
  generalize setPageEntry m₃ (pdpt511 + 8 * 508) 0 pdtId = m₄ at k₄ h₄ ⊢
  obtain ⟨m', hrun, k₅, h₅⟩ := @entry_initPages m₄ 512 (2 <<< 20) pdtId pagefPagesize fuel (by decide) hfuel le_rfl rfl
    (by decide) (by decide) (by decide)
  have htables : Keeps m₀ m' scratchAddress stage3Copy := by
    refine (((Keeps.trans (k₁.mono ?_ ?_) (k₂.mono ?_ ?_)).trans (k₃.mono ?_ ?_)).trans (k₄.mono ?_ ?_)).trans
      (k₅.mono ?_ ?_)
    all_goals decide
  refine ⟨m', hrun, (hclear.mono le_rfl le_rfl).trans (htables.mono le_rfl (by decide)), fun a hlo hhi => ?_,
    fun table i htable hi => ?_⟩
  · rw [htables a (.inr hlo)]
    exact hzero a (by omega) hhi
  · have haligned := htable.aligned
    rw [h₅ table i haligned hi, h₄ table i haligned hi, h₃ table i haligned hi, h₂ table i haligned hi,
      h₁ table i haligned hi, hcleared table i htable hi]
    rfl

/-! ### The image -/

/-- `ImageBase` -/
def imageBase (m : Memory) (esi : ℕ) : ℕ := le64 m (esi + 24 + 24)

/-- The limits for the image at `stage3`: it lies behind the boot sector and in front of the scratch
area, and is linked for an address in the last 512 gigabytes, at the beginning of a large page that it
fits in and that is not in the identity map. The source only says that the image must not cross a large
page or overlap the identity map, and assumes that `pdpt511` is its table. -/
structure Limits (m : Memory) (stage3 : ℕ) : Prop where
  /-- it has been loaded -/
  loaded : loadAddr ≤ stage3 ∧ loadAddr ≤ ntHeaders m stage3
  /-- the first header -/
  dosHeader : stage3 + 0x40 ≤ scratchAddress
  /-- the headers behind it -/
  headers : ntHeaders m stage3 + 84 ≤ scratchAddress
  /-- the headers of the sections -/
  sectionHeaders : Boot.sectionHeaders m (ntHeaders m stage3) + 40 * numberOfSections m (ntHeaders m stage3) ≤
    scratchAddress
  /-- the sections -/
  extent : stage3 + largestExtent m (ntHeaders m stage3) ≤ scratchAddress
  /-- the table for the program is `pdpt511` -/
  base : 2 ^ 64 - 2 ^ 39 ≤ imageBase m (ntHeaders m stage3)
  /-- the image begins with a large page -/
  aligned : imageBase m (ntHeaders m stage3) % 2 ^ 21 = 0
  /-- the image does not overlap the identity map -/
  apart : imageBase m (ntHeaders m stage3) < identityMapStart ∨
    identityMapStart + 2 ^ 30 ≤ imageBase m (ntHeaders m stage3)
  /-- there is a page -/
  size_pos : 4096 ≤ sizeOfImage m (ntHeaders m stage3)
  /-- the image does not cross the large page -/
  size_le : sizeOfImage m (ntHeaders m stage3) ≤ 2 ^ 21

/-- A shift of two registers. -/
theorem shrd_eq {lo hi : ℕ} (hlo : lo < 2 ^ 32) : shrd lo hi 12 = (lo + 2 ^ 32 * hi) / 2 ^ 12 % 2 ^ 32 := by
  have hlow : lo >>> 12 = lo / 2 ^ 12 := Nat.shiftRight_eq_div_pow ..
  have hhigh : u32 (hi <<< 20) = 2 ^ 20 * (hi % 2 ^ 12) := by
    rw [Nat.shiftLeft_eq, u32]
    omega
  have hadd := Nat.two_pow_add_eq_or_of_lt (by omega : lo / 2 ^ 12 < 2 ^ 20) (hi % 2 ^ 12)
  rw [shrd, hlow, hhigh, Nat.or_comm, ← hadd]
  omega

/-- The bits of a register that index a table. -/
theorem and_shift_eq (eax k : ℕ) : (eax >>> k &&& 511) <<< 3 = 8 * (eax / 2 ^ k % 512) := by
  rw [Nat.shiftRight_eq_div_pow, Nat.shiftLeft_eq, Nat.and_two_pow_sub_one_eq_mod _ 9, Nat.mul_comm]

/-- **The image is mapped**: the entries are set, and nothing in front of or behind the tables changes. -/
theorem mapStage3_spec {esi : ℕ} (hpos : 4096 ≤ sizeOfImage m esi) (hmax : sizeOfImage m esi ≤ 2 ^ 21)
    (hesi : esi + 84 ≤ scratchAddress) (hfuel : 512 ≤ fuel) :
    ∃ m', mapStage3 fuel m esi = .done m' ∧ Keeps m m' pdpt511 stage3Copy ∧
      ∀ table i, table % 4096 = 0 → i < 512 → entry m' table i =
        if table = ptProgram ∧ i < sizeOfImage m esi / 4096 then (stage3Copy + 4096 * i) ||| pagefPresentWrite
        else if table = pdtProgram ∧ i = imageBase m esi / 2 ^ 21 % 512 then ptProgram ||| pagefPresentWrite
        else if table = pdpt511 ∧ i = imageBase m esi / 2 ^ 30 % 512 then pdtProgram ||| pagefPresentWrite
        else entry m table i := by
  have hcopy := stage3Copy_eq
  have hpdpt511 := pdpt511_eq
  have hpdtProgram := pdtProgram_eq
  have hptProgram := ptProgram_eq
  have hscratch := scratchAddress_eq
  have hlo := le32_lt m (esi + 24 + 24)
  have hbase : shrd (le32 m (esi + 24 + 24)) (le32 m (esi + 24 + 28)) 12 = imageBase m esi / 2 ^ 12 % 2 ^ 32 := shrd_eq hlo
  rw [mapStage3, hbase, and_shift_eq, and_shift_eq]
  have hupper : imageBase m esi / 2 ^ 12 % 2 ^ 32 / 2 ^ (30 - 12) % 512 = imageBase m esi / 2 ^ 30 % 512 := by omega
  have hlower : imageBase m esi / 2 ^ 12 % 2 ^ 32 / 2 ^ (21 - 12) % 512 = imageBase m esi / 2 ^ 21 % 512 := by omega
  rw [hupper, hlower, u32_of_lt (by omega), u32_of_lt (by omega), Nat.add_comm _ pdpt511, Nat.add_comm _ pdtProgram]
  obtain ⟨k₁, h₁⟩ := entry_setPageEntry m pdpt511 (imageBase m esi / 2 ^ 30 % 512) pdtProgram rfl (by omega) (by decide)
    (by decide)
  generalize setPageEntry m (pdpt511 + 8 * (imageBase m esi / 2 ^ 30 % 512)) 0 pdtProgram = m₁ at k₁ h₁ ⊢
  obtain ⟨k₂, h₂⟩ := entry_setPageEntry m₁ pdtProgram (imageBase m esi / 2 ^ 21 % 512) ptProgram rfl (by omega)
    (by decide) (by decide)
  generalize setPageEntry m₁ (pdtProgram + 8 * (imageBase m esi / 2 ^ 21 % 512)) 0 ptProgram = m₂ at k₂ h₂ ⊢
  have hkeeps : Keeps m m₂ pdpt511 stage3Copy := by
    refine Keeps.trans (k₁.mono ?_ ?_) (k₂.mono ?_ ?_) <;> decide
  have hsize : sizeOfImage m₂ esi = sizeOfImage m esi := hkeeps.le32 (.inl (by omega))
  have hpages : sizeOfImage m esi >>> 12 = sizeOfImage m esi / 4096 := Nat.shiftRight_eq_div_pow ..
  rw [hsize, hpages]
  obtain ⟨m', hrun, k₃, h₃⟩ := @entry_initPages m₂ (sizeOfImage m esi / 4096) 4096 ptProgram stage3Copy fuel (by omega)
    (by omega) (by omega) rfl (by decide) (by omega) (by decide)
  refine ⟨m', hrun, hkeeps.trans (k₃.mono (by decide) (by decide)), fun table i htable hi => ?_⟩
  rw [h₃ table i htable hi, h₂ table i htable hi, h₁ table i htable hi]

/-! ### The whole code -/

variable {stage3 esi : ℕ} {m' : Memory}

/-- The loop over the sections reads their headers only. -/
theorem sections_congr {eax edi ecx : ℕ} (h : ∀ a < edi + 40 * eax, m' a = m a) (hlt : edi + 40 * eax < 2 ^ 32) :
    sections m' eax edi ecx = sections m eax edi ecx := by
  induction eax generalizing edi ecx with
  | zero => rfl
  | succ eax ih =>
    have hptr : le32 m' (edi + 20) = le32 m (edi + 20) := le32_congr fun i hi => h _ (by omega)
    have hsize : le32 m' (edi + 16) = le32 m (edi + 16) := le32_congr fun i hi => h _ (by omega)
    rw [sections, sections, hptr, hsize, u32_of_lt (by omega)]
    exact ih (fun a ha => h a (by omega)) (by omega)

/-- The headers in front of the scratch area. -/
structure SameHeaders (stage3 : ℕ) (m m' : Memory) : Prop where
  /-- the headers are at the same place -/
  ntHeaders : Boot.ntHeaders m' stage3 = Boot.ntHeaders m stage3
  /-- the extent -/
  extent : largestExtent m' (Boot.ntHeaders m stage3) = largestExtent m (Boot.ntHeaders m stage3)
  /-- the size -/
  size : sizeOfImage m' (Boot.ntHeaders m stage3) = sizeOfImage m (Boot.ntHeaders m stage3)
  /-- the base -/
  base : imageBase m' (Boot.ntHeaders m stage3) = imageBase m (Boot.ntHeaders m stage3)

/-- The headers do not change. -/
theorem sameHeaders_of_limits (h : Limits m stage3) (hkeep : Keeps m m' scratchAddress (scratchAddress + scratchSize)) :
    SameHeaders stage3 m m' := by
  have hscratch := scratchAddress_eq
  have hdos := h.dosHeader
  have hnt := h.headers
  have hsections := h.sectionHeaders
  have hcount : numberOfSections m' (ntHeaders m stage3) = numberOfSections m (ntHeaders m stage3) :=
    hkeep.le16 (.inl (by omega))
  have hheaders : sectionHeaders m' (ntHeaders m stage3) = sectionHeaders m (ntHeaders m stage3) := by
    rw [sectionHeaders, sectionHeaders, hkeep.le16 (.inl (by omega))]
  refine ⟨?_, ?_, hkeep.le32 (.inl (by omega)), hkeep.le64 (.inl (by omega))⟩
  · rw [ntHeaders, ntHeaders, hkeep.le32 (.inl (by omega))]
  · rw [largestExtent, largestExtent, hcount, hheaders]
    exact sections_congr (fun a ha => hkeep a (by omega)) (by omega)

/-- The stack of the loader is below the boot sector, and has room for the registers. -/
def Stacked (esp : ℕ) : Prop := 32 ≤ esp ∧ esp ≤ bootAddr

instance (esp : ℕ) : Decidable (Stacked esp) := inferInstanceAs (Decidable (_ ∧ _))

/-- What the code leaves in memory, with the stack at `esp`. -/
structure Booted (m : Memory) (stage3 esp : ℕ) (m' : Memory) : Prop where
  /-- memory outside of the scratch area, but for the registers on the stack -/
  keeps : ∀ a, a < esp - 32 ∨ esp ≤ a → a < scratchAddress ∨ scratchAddress + scratchSize ≤ a → m' a = m a
  /-- the page tables -/
  tables : ∀ table i, IsTable table → i < 512 → entry m' table i =
    bootEntry (imageBase m (ntHeaders m stage3) / 2 ^ 30 % 512) (imageBase m (ntHeaders m stage3) / 2 ^ 21 % 512)
      (sizeOfImage m (ntHeaders m stage3) / 4096) table i
  /-- the copy -/
  copy : ∀ i < largestExtent m (ntHeaders m stage3), m' (stage3Copy + i) = m (stage3 + i)
  /-- zeros behind the copy -/
  zero : ∀ i, largestExtent m (ntHeaders m stage3) ≤ i → stage3Copy + i < scratchAddress + scratchSize →
    m' (stage3Copy + i) = 0

/-- **The code runs to its end** under the limits. -/
theorem testLongmode_booted {r : Registers} (h : Limits m stage3) (hstack : Stacked r.esp) (hfuel : 512 ≤ fuel) :
    ∃ m', testLongmode fuel stage3 r m = .done m' ∧ Booted m stage3 r.esp m' := by
  have hcopy := stage3Copy_eq
  have hpdpt511 := pdpt511_eq
  have hscratch := scratchAddress_eq
  have hload := loadAddr_eq
  have hboot := bootAddr_eq
  have hend := scratch_end
  have hextent := h.extent
  have hnt := h.headers
  obtain ⟨hloaded, hloaded'⟩ := h.loaded
  obtain ⟨hroom, hbelow⟩ := hstack
  obtain ⟨m₁, hrun₁, hkeep₁, hzero, htables⟩ := initIdentityMap_spec m hfuel
  obtain ⟨hheaders, hlargest, hsize, hbase⟩ := sameHeaders_of_limits h hkeep₁
  simp only [testLongmode, hrun₁, Outcome.done_bind, hheaders, hlargest]
  obtain ⟨hesi, hcopied, hkeep₂⟩ := @copyStage3_spec m₁ stage3
    { r with ecx := largestExtent m (ntHeaders m stage3), esi := ntHeaders m stage3 } hroom
    (show r.esp ≤ stage3 by omega) (show stage3 + largestExtent m (ntHeaders m stage3) ≤ stage3Copy by omega)
    (show ntHeaders m stage3 < 2 ^ 32 by omega)
  generalize copyStage3 m₁ stage3 _ = copied at hesi hcopied hkeep₂ ⊢
  obtain ⟨m₂, r₂⟩ := copied
  dsimp only at hesi hcopied hkeep₂ ⊢
  rw [hesi]
  have hsize₂ : sizeOfImage m₂ (ntHeaders m stage3) = sizeOfImage m (ntHeaders m stage3) :=
    (le32_congr fun i hi => hkeep₂ _ (.inr (by omega)) (.inl (by omega))).trans hsize
  have hbase₂ : imageBase m₂ (ntHeaders m stage3) = imageBase m (ntHeaders m stage3) :=
    (le64_congr fun i hi => hkeep₂ _ (.inr (by omega)) (.inl (by omega))).trans hbase
  obtain ⟨m₃, hrun₃, hkeep₃, hentries⟩ := @mapStage3_spec m₂ fuel (ntHeaders m stage3) (by rw [hsize₂]; exact h.size_pos)
    (by rw [hsize₂]; exact h.size_le) hnt hfuel
  rw [hsize₂, hbase₂] at hentries
  refine ⟨m₃, hrun₃, fun a hstack hout => ?_, fun table i htable hi => ?_, fun i hi => ?_, fun i hi hlt => ?_⟩
  · exact ((hkeep₃ a (by omega)).trans (hkeep₂ a hstack (by omega))).trans (hkeep₁ a hout)
  · have hlo := htable.lo
    have hhi := htable.hi
    have hlow : entry m₂ table i = entry m₁ table i :=
      le64_congr fun j hj => hkeep₂ _ (.inr (by omega)) (.inl (by omega))
    rw [hentries table i htable.aligned hi, hlow, htables table i htable hi]
    rfl
  · rw [hkeep₃ _ (.inr (by omega)), hcopied i hi]
    exact hkeep₁ _ (.inl (by omega))
  · rw [hkeep₃ _ (.inr (by omega)), hkeep₂ _ (.inr (by omega)) (.inr (by omega))]
    exact hzero _ (by omega) hlt

end Tables

/-! ## Translation -/

section Translation

open MemoryManager RadixTable

variable {m m' : Memory} {stage3 esp table i t p d n : ℕ} {v : Word} {r : Registers}

/-- The type of the pages of the image. -/
def imageType : MemoryType := MemoryType.read ||| MemoryType.write ||| MemoryType.execute

/-- The type of the pages of the identity maps. -/
def identityType : MemoryType := imageType ||| MemoryType.ps2mb

/-- A word of a table. -/
def bootWord (p d n table i : ℕ) : Word := BitVec.ofNat 64 (bootEntry p d n table i)

theorem isPage_ofNat (h : t % 4096 = 0) (hlt : t < 2 ^ 63) : IsPage (BitVec.ofNat 64 t) := by
  have hlt' : (BitVec.ofNat 64 t).toNat < 2 ^ 63 := by
    rw [BitVec.toNat_ofNat, Nat.mod_eq_of_lt (by omega)]
    exact hlt
  have hlow : BitVec.ofNat 64 t &&& 0xfff = 0 := by
    apply BitVec.eq_of_toNat_eq
    rw [BitVec.toNat_and, BitVec.toNat_ofNat, Nat.mod_eq_of_lt (by omega)]
    exact (Nat.and_two_pow_sub_one_eq_mod t 12).trans h
  rw [isPage_iff, BitVec.and_or_distrib_left, and_nx_eq_zero hlt', hlow]
  rfl

/-- An entry for a table is a pointer. -/
theorem kind_pointer (hn : n = 4 ∨ n = 2 ∨ n = 3) (h : t % 4096 = 0) (hlt : t < 2 ^ 63) :
    kind n (BitVec.ofNat 64 (t ||| pagefPresentWrite)) = .table (BitVec.ofNat 64 t) := by
  have hflags : BitVec.ofNat 64 pagefPresentWrite = entryFlags imageType := by decide
  rw [BitVec.ofNat_or, hflags]
  exact kind_table hn (isPage_ofNat h hlt) imageType

/-- The pages of the image are like those that `do_map_memory` maps. -/
theorem leafWord_image (t : ℕ) :
    BitVec.ofNat 64 (t ||| pagefPresentWrite) = leafWord imageType (BitVec.ofNat 64 t) := by
  have hflags : BitVec.ofNat 64 pagefPresentWrite = pageFlags imageType := by decide
  rw [BitVec.ofNat_or, hflags, leafWord, if_pos (by decide)]

/-- So are those of the identity maps. -/
theorem leafWord_identity (i : ℕ) :
    BitVec.ofNat 64 ((pagefPagesize + 2 <<< 20 * i) ||| pagefPresentWrite) =
      leafWord identityType (BitVec.ofNat 64 (2 ^ 21 * i)) := by
  have hflags : BitVec.ofNat 64 pagefPresentWrite = pageFlags identityType := by decide
  have hsize : BitVec.ofNat 64 pagefPagesize = PageFlag.pagesize := rfl
  have hor : pagefPagesize + 2 <<< 20 * i = 2 ^ 21 * i ||| pagefPagesize := by
    rw [Nat.add_comm]
    exact Nat.two_pow_add_eq_or_of_lt (by decide : pagefPagesize < 2 ^ 21) i
  rw [hor, BitVec.ofNat_or, BitVec.ofNat_or, hflags, hsize, leafWord, if_neg (by decide)]

theorem kind_pml4 (p d n i : ℕ) : kind 4 (bootWord p d n pml4 i) =
    if i = 511 then .table (BitVec.ofNat 64 pdpt511) else if i = 0 then .table (BitVec.ofNat 64 pdpt0) else .absent := by
  have hentry : bootEntry p d n pml4 i =
      if i = 511 then pdpt511 ||| pagefPresentWrite else if i = 0 then pdpt0 ||| pagefPresentWrite else 0 := by
    simp [bootEntry, identityEntry, pml4_eq, pdpt0_eq, pdpt511_eq, pdtId_eq, pdtProgram_eq, ptProgram_eq]
  rw [bootWord, hentry]
  split_ifs
  · exact kind_pointer (.inl rfl) rfl (by decide)
  · exact kind_pointer (.inl rfl) rfl (by decide)
  · exact kind_zero 4

theorem kind_pdpt0 (p d n i : ℕ) : kind 3 (bootWord p d n pdpt0 i) =
    if i = 0 then .table (BitVec.ofNat 64 pdtId) else .absent := by
  have hentry : bootEntry p d n pdpt0 i = if i = 0 then pdtId ||| pagefPresentWrite else 0 := by
    simp [bootEntry, identityEntry, pml4_eq, pdpt0_eq, pdpt511_eq, pdtId_eq, pdtProgram_eq, ptProgram_eq]
  rw [bootWord, hentry]
  split_ifs
  · exact kind_pointer (.inr (.inr rfl)) rfl (by decide)
  · exact kind_zero 3

theorem kind_pdpt511 (p d n i : ℕ) : kind 3 (bootWord p d n pdpt511 i) =
    if i = p then .table (BitVec.ofNat 64 pdtProgram) else if i = 508 then .table (BitVec.ofNat 64 pdtId)
    else .absent := by
  have hentry : bootEntry p d n pdpt511 i =
      if i = p then pdtProgram ||| pagefPresentWrite else if i = 508 then pdtId ||| pagefPresentWrite else 0 := by
    simp [bootEntry, identityEntry, pml4_eq, pdpt0_eq, pdpt511_eq, pdtId_eq, pdtProgram_eq, ptProgram_eq]
  rw [bootWord, hentry]
  split_ifs
  · exact kind_pointer (.inr (.inr rfl)) rfl (by decide)
  · exact kind_pointer (.inr (.inr rfl)) rfl (by decide)
  · exact kind_zero 3

theorem bootWord_pdtId (p d n : ℕ) (hi : i < 512) :
    bootWord p d n pdtId i = leafWord identityType (BitVec.ofNat 64 (2 ^ 21 * i)) := by
  have hentry : bootEntry p d n pdtId i = (pagefPagesize + 2 <<< 20 * i) ||| pagefPresentWrite := by
    simp [bootEntry, identityEntry, pdpt511_eq, pdtId_eq, pdtProgram_eq, ptProgram_eq, hi]
  rw [bootWord, hentry, leafWord_identity]

theorem kind_pdtProgram (p d n i : ℕ) : kind 2 (bootWord p d n pdtProgram i) =
    if i = d then .table (BitVec.ofNat 64 ptProgram) else .absent := by
  have hentry : bootEntry p d n pdtProgram i = if i = d then ptProgram ||| pagefPresentWrite else 0 := by
    simp [bootEntry, identityEntry, pml4_eq, pdpt0_eq, pdpt511_eq, pdtId_eq, pdtProgram_eq, ptProgram_eq]
  rw [bootWord, hentry]
  split_ifs
  · exact kind_pointer (.inr (.inl rfl)) rfl (by decide)
  · exact kind_zero 2

theorem bootWord_ptProgram (p d n i : ℕ) : bootWord p d n ptProgram i =
    if i < n then leafWord imageType (BitVec.ofNat 64 (stage3Copy + 4096 * i)) else 0 := by
  have hentry : bootEntry p d n ptProgram i =
      if i < n then (stage3Copy + 4096 * i) ||| pagefPresentWrite else 0 := by
    simp [bootEntry, identityEntry, pml4_eq, pdpt0_eq, pdpt511_eq, pdtId_eq, pdtProgram_eq, ptProgram_eq]
  rw [bootWord, hentry]
  split_ifs
  · exact leafWord_image _
  · rfl

/-- The entries that an address has, by what the processor finds in the tables. -/
theorem lookup_boot {mem : PhysicalMemory} (hp : p ≠ 508)
    (hmem : ∀ table i, IsTable table → i < 512 → mem (BitVec.ofNat 64 table) i = bootWord p d n table i) (v : Word) :
    lookup kind mem 4 (BitVec.ofNat 64 pml4) (indices v) =
      if pml4e v = 0 ∧ pdpe v = 0 ∨ pml4e v = 511 ∧ pdpe v = 508 then
        some (2, leafWord identityType (BitVec.ofNat 64 (2 ^ 21 * pde v)))
      else if pml4e v = 511 ∧ pdpe v = p ∧ pde v = d ∧ pte v < n then
        some (1, leafWord imageType (BitVec.ofNat 64 (stage3Copy + 4096 * pte v)))
      else none := by
  have h₄ : pml4e v < 512 := by rw [pml4e_eq]; exact Nat.mod_lt _ (by decide)
  have h₃ : pdpe v < 512 := by rw [pdpe_eq]; exact Nat.mod_lt _ (by decide)
  have h₂ : pde v < 512 := by rw [pde_eq]; exact Nat.mod_lt _ (by decide)
  have h₁ : pte v < 512 := by rw [pte_eq]; exact Nat.mod_lt _ (by decide)
  have e₄ := hmem pml4 (pml4e v) ⟨rfl, by decide, by decide⟩ h₄
  have e₃ := hmem pdpt0 (pdpe v) ⟨rfl, by decide, by decide⟩ h₃
  have e₃' := hmem pdpt511 (pdpe v) ⟨rfl, by decide, by decide⟩ h₃
  have e₂ := hmem pdtId (pde v) ⟨rfl, by decide, by decide⟩ h₂
  have e₂' := hmem pdtProgram (pde v) ⟨rfl, by decide, by decide⟩ h₂
  have e₁ := hmem ptProgram (pte v) ⟨rfl, by decide, by decide⟩ h₁
  have k₄ := kind_pml4 p d n (pml4e v)
  have k₃ := kind_pdpt0 p d n (pdpe v)
  have k₃' := kind_pdpt511 p d n (pdpe v)
  have k₂' := kind_pdtProgram p d n (pde v)
  -- both identity maps end in the same table
  have hidentity : lookup kind mem 2 (BitVec.ofNat 64 pdtId) [pde v, pte v] =
      some (2, leafWord identityType (BitVec.ofNat 64 (2 ^ 21 * pde v))) := by
    have hleaf : kind 2 (mem (BitVec.ofNat 64 pdtId) (pde v)) = .leaf := by
      rw [e₂, bootWord_pdtId p d n h₂]
      exact kind_leafWord identityType _
    rw [lookup_of_leaf hleaf, e₂, bootWord_pdtId p d n h₂]
  rw [indices]
  by_cases htop : pml4e v = 511
  · rw [if_pos htop] at k₄
    rw [lookup_of_table (by rw [e₄, k₄])]
    by_cases himage : pdpe v = p
    · rw [if_pos himage] at k₃'
      rw [lookup_of_table (by rw [e₃', k₃']), if_neg (by omega)]
      by_cases hd : pde v = d
      · rw [if_pos hd] at k₂'
        rw [lookup_of_table (by rw [e₂', k₂'])]
        by_cases hn : pte v < n
        · have hword := (bootWord_ptProgram p d n (pte v)).trans (if_pos hn)
          have hleaf : kind 1 (mem (BitVec.ofNat 64 ptProgram) (pte v)) = .leaf := by
            rw [e₁, hword]
            exact kind_leafWord imageType _
          rw [lookup_of_leaf hleaf, e₁, hword, if_pos ⟨htop, himage, hd, hn⟩]
        · have hword := (bootWord_ptProgram p d n (pte v)).trans (if_neg hn)
          rw [lookup_of_absent (by rw [e₁, hword, kind_zero]), if_neg fun h => hn h.2.2.2]
      · rw [if_neg hd] at k₂'
        rw [lookup_of_absent (by rw [e₂', k₂']), if_neg fun h => hd h.2.2.1]
    · rw [if_neg himage] at k₃'
      by_cases hupper : pdpe v = 508
      · rw [if_pos hupper] at k₃'
        rw [lookup_of_table (by rw [e₃', k₃']), hidentity, if_pos (.inr ⟨htop, hupper⟩)]
      · rw [if_neg hupper] at k₃'
        rw [lookup_of_absent (by rw [e₃', k₃']), if_neg (by omega), if_neg fun h => himage h.2.1]
  · rw [if_neg htop] at k₄
    by_cases hlow : pml4e v = 0
    · rw [if_pos hlow] at k₄
      rw [lookup_of_table (by rw [e₄, k₄])]
      by_cases hfirst : pdpe v = 0
      · rw [if_pos hfirst] at k₃
        rw [lookup_of_table (by rw [e₃, k₃]), hidentity, if_pos (.inl ⟨hlow, hfirst⟩)]
      · rw [if_neg hfirst] at k₃
        rw [lookup_of_absent (by rw [e₃, k₃]), if_neg (by omega), if_neg fun h => htop h.1]
    · rw [if_neg hlow] at k₄
      rw [lookup_of_absent (by rw [e₄, k₄]), if_neg (by omega), if_neg fun h => htop h.1]

/-- The address in a page, as a number. -/
theorem toNat_leafAddress {type : MemoryType} (size t : ℕ) (hsize : type.pageSize = BitVec.ofNat 64 size)
    (hlt : size < 2 ^ 63) (ht : t % size = 0) (hmax : t + size < 2 ^ 63) (hpos : 0 < size) (v : Word) :
    (leafAddress (leafWord type (BitVec.ofNat 64 t)) v (BitVec.ofNat 64 size)).toNat = t + v.toNat % size := by
  have hnat : type.pageSize.toNat = size := by
    rw [hsize, BitVec.toNat_ofNat, Nat.mod_eq_of_lt (by omega)]
  have htnat : (BitVec.ofNat 64 t).toNat = t := by
    rw [BitVec.toNat_ofNat, Nat.mod_eq_of_lt (by omega)]
  have hmod := Nat.mod_lt v.toNat hpos
  have hleaf := @leafAddress_leafWord type (BitVec.ofNat 64 t) v (by rw [htnat, hnat]; exact ht) (by omega)
  rw [← hsize, hleaf, BitVec.toNat_add, htnat, toNat_and_pageSize, hnat, Nat.mod_eq_of_lt (by omega)]

/-- The words of the page tables. -/
theorem word_of_booted (h : Booted m stage3 esp m') (htable : IsTable table) (hi : i < 512) :
    tables m' (BitVec.ofNat 64 table) i =
      bootWord (imageBase m (ntHeaders m stage3) / 2 ^ 30 % 512) (imageBase m (ntHeaders m stage3) / 2 ^ 21 % 512)
        (sizeOfImage m (ntHeaders m stage3) / 4096) table i := by
  have hhi := htable.hi
  have hcopy := stage3Copy_eq
  rw [tables, BitVec.toNat_ofNat, Nat.mod_eq_of_lt (by omega)]
  exact congrArg (BitVec.ofNat 64) (h.tables table i htable hi)

/-- What the tables are for: the two identity maps, and the image with its base and its size. -/
def bootTranslation (base size : ℕ) (v : Word) : Option ℕ :=
  if v.toNat < 2 ^ 30 then some v.toNat
  else if identityMapStart ≤ v.toNat ∧ v.toNat < identityMapStart + 2 ^ 30 then some (v.toNat - identityMapStart)
  else if base ≤ v.toNat ∧ v.toNat < base + 4096 * (size / 4096) then some (stage3Copy + (v.toNat - base))
  else none

/-- The processor translates the addresses of the identity maps and of the image, and no others. -/
theorem translate_booted (hlimits : Limits m stage3) (h : Booted m stage3 esp m') (hv : Canonical v) :
    translate m' v =
      bootTranslation (imageBase m (ntHeaders m stage3)) (sizeOfImage m (ntHeaders m stage3)) v := by
  have hbase := hlimits.base
  have haligned := hlimits.aligned
  have hapart := hlimits.apart
  have hmax := hlimits.size_le
  have hend : imageBase m (ntHeaders m stage3) < 2 ^ 64 := le64_lt ..
  have hstart := identityMapStart_eq
  have hcopy := stage3Copy_eq
  have hroot : tableEntry (BitVec.ofNat 64 pml4) = BitVec.ofNat 64 pml4 := by decide
  have hp : imageBase m (ntHeaders m stage3) / 2 ^ 30 % 512 ≠ 508 := by omega
  have hlookup := lookup_boot hp (fun _ _ htable hi => word_of_booted h htable hi) v
  have h₄ := pml4e_eq v
  have h₃ := pdpe_eq v
  have h₂ := pde_eq v
  have h₁ := pte_eq v
  have hlt := v.isLt
  rw [translate, virtToPhys_eq, hroot, hlookup, bootTranslation]
  rw [Canonical] at hv
  generalize imageBase m (ntHeaders m stage3) = base at *
  generalize sizeOfImage m (ntHeaders m stage3) = size at *
  by_cases hidentity : pml4e v = 0 ∧ pdpe v = 0 ∨ pml4e v = 511 ∧ pdpe v = 508
  · have hplace := toNat_leafAddress 0x200000 (2 ^ 21 * pde v) (rfl : identityType.pageSize = BitVec.ofNat 64 0x200000)
      (by decide) (by omega) (by omega) (by decide) v
    have hdone : translation v (some (2, leafWord identityType (BitVec.ofNat 64 (2 ^ 21 * pde v)))) =
        .done (leafAddress (leafWord identityType (BitVec.ofNat 64 (2 ^ 21 * pde v))) v 0x200000) := rfl
    rw [if_pos hidentity, hdone]
    change some _ = _
    change (leafAddress _ v 0x200000).toNat = _ at hplace
    rw [hplace]
    by_cases hlow : v.toNat < 2 ^ 30
    · rw [if_pos hlow]
      refine congrArg some ?_
      omega
    · have hupper : identityMapStart ≤ v.toNat ∧ v.toNat < identityMapStart + 2 ^ 30 := by omega
      rw [if_neg hlow, if_pos hupper]
      refine congrArg some ?_
      omega
  · have hlow : ¬ v.toNat < 2 ^ 30 := by omega
    have hupper : ¬ (identityMapStart ≤ v.toNat ∧ v.toNat < identityMapStart + 2 ^ 30) := by omega
    rw [if_neg hidentity, if_neg hlow, if_neg hupper]
    by_cases himage : pml4e v = 511 ∧ pdpe v = base / 2 ^ 30 % 512 ∧ pde v = base / 2 ^ 21 % 512 ∧ pte v < size / 4096
    · have hplace := toNat_leafAddress 0x1000 (stage3Copy + 4096 * pte v)
        (rfl : imageType.pageSize = BitVec.ofNat 64 0x1000) (by decide) (by omega) (by omega) (by decide) v
      have hdone : translation v (some (1, leafWord imageType (BitVec.ofNat 64 (stage3Copy + 4096 * pte v)))) =
          .done (leafAddress (leafWord imageType (BitVec.ofNat 64 (stage3Copy + 4096 * pte v))) v 0x1000) := rfl
      have hrange : base ≤ v.toNat ∧ v.toNat < base + 4096 * (size / 4096) := by omega
      rw [if_pos himage, hdone, if_pos hrange]
      change some _ = _
      change (leafAddress _ v 0x1000).toNat = _ at hplace
      rw [hplace]
      refine congrArg some ?_
      omega
    · have hrange : ¬ (base ≤ v.toNat ∧ v.toNat < base + 4096 * (size / 4096)) := by omega
      rw [if_neg himage, if_neg hrange]
      rfl

/-- **The page tables of the boot loader** translate the addresses that they are for, and no others, and
no memory outside of the scratch area has changed, but for the registers on the stack. -/
theorem testLongmode_translates (hlimits : Limits m stage3) (hstack : Stacked r.esp) {fuel : ℕ} (hfuel : 512 ≤ fuel) :
    ∃ m', testLongmode fuel stage3 r m = .done m' ∧
      (∀ v, Canonical v → translate m' v =
        bootTranslation (imageBase m (ntHeaders m stage3)) (sizeOfImage m (ntHeaders m stage3)) v) ∧
      ∀ a, a < r.esp - 32 ∨ r.esp ≤ a → a < scratchAddress ∨ scratchAddress + scratchSize ≤ a → m' a = m a := by
  obtain ⟨m', hrun, hbooted⟩ := testLongmode_booted hlimits hstack hfuel
  exact ⟨m', hrun, fun v hv => translate_booted hlimits hbooted hv, hbooted.keeps⟩

/-! ## A small kernel -/

/-- The bytes of an image with one section, at `0x9000`. -/
def smallKernel : Memory := fun a =>
  ([(0x903c, 0x40), (0x9046, 1), (0x9054, 0x70), (0x9073, 0xff), (0x9074, 0xff), (0x9075, 0xff), (0x9076, 0xff),
    (0x9077, 0xff), (0x9091, 0x20), (0x90d5, 0x10), (0x90d9, 0x10), (0x90dd, 0x10), (0xa005, 42)].lookup a).getD 0

theorem smallKernel_limits : Limits smallKernel 0x9000 where
  loaded := by decide
  dosHeader := by decide
  headers := by decide
  sectionHeaders := by decide
  extent := by decide
  base := by decide
  aligned := by decide
  apart := by decide
  size_pos := by decide
  size_le := by decide

/-- The registers where only `esp` has been set. -/
def smallRegisters : Registers := ⟨0, 0, 0, 0, 0x7bf0, 0, 0, 0⟩

/-- Its two pages are mapped, and the next one is not. -/
theorem testLongmode_translates_small : ∃ m', testLongmode 512 0x9000 smallRegisters smallKernel = .done m' ∧
    translate m' 0xFFFFFFFFFF001005 = some 0x47005 ∧ translate m' 0xFFFFFFFFFF002000 = none ∧
    translate m' 0xFFFFFFFF000B8000 = some 0xB8000 := by
  obtain ⟨m', hrun, htranslate, -⟩ := testLongmode_translates smallKernel_limits (by decide : Stacked smallRegisters.esp) le_rfl
  exact ⟨m', hrun, (htranslate _ (by decide)).trans (by decide), (htranslate _ (by decide)).trans (by decide),
    (htranslate _ (by decide)).trans (by decide)⟩

end Translation

end Attos.Boot
