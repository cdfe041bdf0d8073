import Attos.UserSegments

/-!
# Loading a user image

What `alloc_and_map_user_exe` leaves in the address space of a new process
(`HasImage`), read through `virt_to_phys`: the headers and sections of the file
with their permissions, and a stack of zeros (`user_image`).
-/

namespace Attos

open Lib RadixTable MemoryManager DefaultMemoryManager

/-! ## What a process reads -/

/-- The byte at a virtual address. -/
def readVirt (k : KernelMemoryManager) (mm : MemoryManager) (v : Word) : Outcome UInt8 := do
  let phys ← virtToPhys k.mem mm.pml4_ v
  pure (readByte k.mem phys.toNat)

/-- The addresses from `v` on have these bytes. -/
def Reads (k : KernelMemoryManager) (mm : MemoryManager) (v : Word) (n : ℕ) (bytes : ℕ → UInt8) :
    Prop :=
  ∀ i < n, readVirt k mm (v + BitVec.ofNat 64 i) = .done (bytes i)

/-- The entries of the pages from `v` on are for the user, and have these
permissions. -/
def Permits (k : KernelMemoryManager) (mm : MemoryManager) (v : Word) (n : ℕ)
    (write execute : Prop) : Prop :=
  ∀ i < n, ∃ w, (k.enter mm).entryAt (indices (v + BitVec.ofNat 64 i)) = some (1, w) ∧
    w &&& PageFlag.user ≠ 0 ∧ (w &&& PageFlag.write ≠ 0 ↔ write) ∧
    (w &&& PageFlag.nx = 0 ↔ execute)

/-- **The image is in the address space.** -/
structure HasImage (k : KernelMemoryManager) (mm : MemoryManager) (image : Image) : Prop where
  /-- a section has its bytes from the file, and zeros behind them -/
  sections : ∀ s ∈ image.sections,
    Reads k mm (image.imageBase + BitVec.ofNat 64 s.virtualAddress) (roundUp s.virtualSize) fun i =>
      if i < min s.virtualSize s.sizeOfRawData then image (s.pointerToRawData + i) else 0
  /-- and its permissions -/
  permissions : ∀ s ∈ image.sections,
    Permits k mm (image.imageBase + BitVec.ofNat 64 s.virtualAddress) (roundUp s.virtualSize)
      (s.characteristics &&& 0x80000000 ≠ 0) (s.characteristics &&& 0x20000000 ≠ 0)
  /-- the headers are at the image base -/
  headers : Reads k mm image.imageBase image.sizeOfHeaders image
  /-- to be read only -/
  headerPermissions : Permits k mm image.imageBase (roundUp image.sizeOfHeaders) False False
  /-- the stack below it is clear -/
  stack : Reads k mm (image.imageBase - 0x8000) 0x8000 fun _ => 0
  /-- and can be written -/
  stackPermissions : Permits k mm (image.imageBase - 0x8000) 0x8000 True False


variable {k k' k₀ k₁ k₂ : KernelMemoryManager} {mm : MemoryManager} {proc proc' : UserProcess}
  {seg : ImageSegment} {segs : List ImageSegment} {base virt v : Word} {image source : Image}
  {fuel phys virtSize srcSize rem i n : ℕ} {type : MemoryType}

/-! ## Permissions -/

/-- The flags of an entry for a 4 KB page. -/
theorem leafWord_flags {page : Word} (htype : leafLevel type = 1) (hpage : IsPage page) :
    (leafWord type page &&& PageFlag.user ≠ 0 ↔ type.Has MemoryType.user) ∧
      (leafWord type page &&& PageFlag.write ≠ 0 ↔ type.Has MemoryType.write) ∧
      (leafWord type page &&& PageFlag.nx = 0 ↔ type.Has MemoryType.execute) := by
  rw [leafWord, if_pos htype]
  rw [isPage_iff] at hpage
  rw [or_and_of_and_eq_zero hpage (by decide), or_and_of_and_eq_zero hpage (by decide),
    or_and_of_and_eq_zero hpage (by decide)]
  rw [pageFlags, tableFlags]
  refine ⟨?_, ?_, ?_⟩ <;> split_ifs <;> simp_all <;> decide

/-- The type of a section: it has 4 KB pages for the user, and the permissions of
the section. -/
theorem sectionMemoryType_spec (c : BitVec 32) :
    leafLevel (sectionMemoryType c ||| MemoryType.user) = 1 ∧
      (sectionMemoryType c ||| MemoryType.user).Has MemoryType.user ∧
      ((sectionMemoryType c ||| MemoryType.user).Has MemoryType.write ↔ c &&& 0x80000000 ≠ 0) ∧
      ((sectionMemoryType c ||| MemoryType.user).Has MemoryType.execute ↔
        c &&& 0x20000000 ≠ 0) := by
  rw [sectionMemoryType]
  refine ⟨?_, ?_, ?_, ?_⟩ <;> split_ifs <;> simp_all <;> decide

theorem headersType_spec : leafLevel (MemoryType.read ||| MemoryType.user) = 1 ∧
    (MemoryType.read ||| MemoryType.user).Has MemoryType.user ∧
    ((MemoryType.read ||| MemoryType.user).Has MemoryType.write ↔ False) ∧
    ((MemoryType.read ||| MemoryType.user).Has MemoryType.execute ↔ False) := by
  decide

theorem stackType_spec :
    leafLevel (MemoryType.read ||| MemoryType.write ||| MemoryType.user) = 1 ∧
      (MemoryType.read ||| MemoryType.write ||| MemoryType.user).Has MemoryType.user ∧
      ((MemoryType.read ||| MemoryType.write ||| MemoryType.user).Has MemoryType.write ↔ True) ∧
      ((MemoryType.read ||| MemoryType.write ||| MemoryType.user).Has MemoryType.execute ↔
        False) := by
  decide

/-! ## Reading a segment -/

/-- An address of a segment, by its place. -/
theorem Loaded.at (h : Loaded k mm seg phys) (hi : i < seg.size) :
    offset seg.virt (seg.virt + BitVec.ofNat 64 i) = i ∧
      pml4e (seg.virt + BitVec.ofNat 64 i) ≠ kernelPml4 := by
  have hsmall := h.small
  have hlow := h.below
  have hlt := seg.virt.isLt
  have hnat : (BitVec.ofNat 64 i).toNat = i := by
    rw [BitVec.toNat_ofNat]
    exact Nat.mod_eq_of_lt (by omega)
  constructor
  · rw [offset]
    rw [BitVec.add_comm, BitVec.add_sub_cancel, hnat]
    exact Nat.mod_eq_of_lt (by omega)
  · rw [pml4e_eq] at hlow ⊢
    rw [BitVec.toNat_add, hnat]
    rw [kernelPml4]
    omega

/-- The entry of an address of a segment. -/
theorem Loaded.entryAt (h : Loaded k mm seg phys) (hspace : AddressSpace k mm) (hi : i < seg.size) :
    (k.enter mm).entryAt (indices (seg.virt + BitVec.ofNat 64 i)) = some (1, leafWord seg.type
      (pageOf seg.type seg.virt (BitVec.ofNat 64 phys) (seg.virt + BitVec.ofNat 64 i))) := by
  obtain ⟨level, ht⟩ := hspace.tables
  obtain ⟨hoff, hne⟩ := h.at hi
  rw [← h.entry _ (by rwa [hoff]), entryOf, mask_entryAt ht]
  intro hprefix
  obtain ⟨rest, hrest⟩ := hprefix
  exact hne (List.cons.inj hrest).1.symm

/-- **A loaded segment is read.** -/
theorem Loaded.reads (h : Loaded k mm seg phys) (hspace : AddressSpace k mm)
    (htype : leafLevel seg.type = 1) : Reads k mm seg.virt seg.size seg.content := by
  intro i hi
  obtain ⟨level, ht⟩ := hspace.tables
  obtain ⟨hoff, -⟩ := h.at hi
  have hbound := h.bound
  have hdvd := h.dvd
  have hsize : seg.type.pageSize = 0x1000 := by
    rcases leafLevel_cases seg.type with ⟨hl, -⟩ | ⟨hl, -⟩ | ⟨-, -, -, hps⟩
    · omega
    · omega
    · exact hps
  have hphys : (BitVec.ofNat 64 phys).toNat = phys := by
    rw [BitVec.toNat_ofNat]
    exact Nat.mod_eq_of_lt (by omega)
  have hmod : ∀ w : Word, 4096 ∣ w.toNat → w.toNat % seg.type.pageSize.toNat = 0 := by
    intro w hw
    rw [hsize]
    exact Nat.mod_eq_zero_of_dvd hw
  -- the translation
  have haddr := leafAddress_pageOf (v := seg.virt + BitVec.ofNat 64 i) (hmod _ h.virt_dvd)
    (hmod (BitVec.ofNat 64 phys) (by rwa [hphys])) (by rw [hphys, hoff]; omega)
  rw [hsize, hoff] at haddr
  have hpml4 : tableEntry mm.pml4_ = mm.pml4_ := ht.isPage
  have htranslate : virtToPhys k.mem mm.pml4_ (seg.virt + BitVec.ofNat 64 i) =
      .done (BitVec.ofNat 64 phys + BitVec.ofNat 64 i) := by
    rw [virtToPhys_eq, hpml4, ← haddr]
    exact congrArg (translation _) (h.entryAt hspace hi)
  have hsum : (BitVec.ofNat 64 phys + BitVec.ofNat 64 i).toNat = phys + i := by
    rw [← BitVec.ofNat_add, BitVec.toNat_ofNat]
    exact Nat.mod_eq_of_lt (by omega)
  rw [readVirt]
  rw [htranslate, Outcome.done_bind, hsum, h.bytes i hi]
  rfl

/-- **Its pages have the permissions of its type.** -/
theorem Loaded.permits {write execute : Prop} (h : Loaded k mm seg phys) (hspace : AddressSpace k mm)
    (htype : leafLevel seg.type = 1) (huser : seg.type.Has MemoryType.user)
    (hwrite : seg.type.Has MemoryType.write ↔ write)
    (hexecute : seg.type.Has MemoryType.execute ↔ execute) :
    Permits k mm seg.virt seg.size write execute := by
  intro i hi
  obtain ⟨hoff, -⟩ := h.at hi
  have hbound := h.bound
  have hdvd := h.dvd
  have hpage : IsPage (pageOf seg.type seg.virt (BitVec.ofNat 64 phys)
      (seg.virt + BitVec.ofNat 64 i)) := by
    have hsize : seg.type.pageSize.toNat = 4096 := by
      rcases leafLevel_cases seg.type with ⟨hl, -⟩ | ⟨hl, -⟩ | ⟨-, -, -, hps⟩
      · omega
      · omega
      · rw [hps]
        rfl
    have hnat : (pageOf seg.type seg.virt (BitVec.ofNat 64 phys)
        (seg.virt + BitVec.ofNat 64 i)).toNat = phys + i / 4096 * 4096 := by
      rw [pageOf, hoff, hsize, ← BitVec.ofNat_add, BitVec.toNat_ofNat]
      exact Nat.mod_eq_of_lt (by omega)
    exact isPage_of_dvd (by omega) (by omega)
  obtain ⟨hu, hw, hx⟩ := leafWord_flags htype hpage
  exact ⟨_, h.entryAt hspace hi, hu.mpr huser, hw.trans hwrite, hx.trans hexecute⟩

/-! ## Loading an image -/

/-- A section is near the image base. -/
theorem near_section {a : ℕ} (hbase : pml4e base < 0x100) (ha : a < 2 ^ 32) (hn : n ≤ 2 ^ 33) :
    Near base (base + BitVec.ofNat 64 a) n := by
  have hlt := base.isLt
  rw [pml4e_eq] at hbase
  have hnat : (base + BitVec.ofNat 64 a).toNat = base.toNat + a := by
    rw [BitVec.toNat_add, BitVec.toNat_ofNat]
    omega
  rw [Near]
  omega

/-- The stack is near the image base, as it does not wrap around. -/
theorem near_stack (hbase : pml4e base < 0x100) (hstack : pml4e (base - 0x8000) < 0x100) :
    Near base (base - 0x8000) 0x8000 := by
  have hlt := base.isLt
  rw [pml4e_eq] at hbase hstack
  have hnat : (base - 0x8000).toNat = (2 ^ 64 - 0x8000 + base.toNat) % 2 ^ 64 :=
    BitVec.toNat_sub _ _
  rw [hnat] at hstack
  rw [Near]
  rw [hnat]
  omega

/-- A section as a segment. -/
def sectionSegment (image : Image) (s : SectionHeader) : ImageSegment :=
  segment (image.imageBase + BitVec.ofNat 64 s.virtualAddress) s.virtualSize
    (sectionMemoryType s.characteristics ||| MemoryType.user)
    (fun i => image (s.pointerToRawData + i)) s.sizeOfRawData

theorem roundUp_le (hn : n < 2 ^ 32) : roundUp n ≤ 2 ^ 33 := by
  rw [roundUp_eq hn]
  omega

/-- The fields of a section header have 32 bits. -/
theorem sections_lt {s : SectionHeader} (hs : s ∈ image.sections) :
    s.virtualSize < 2 ^ 32 ∧ s.virtualAddress < 2 ^ 32 := by
  obtain ⟨i, -, rfl⟩ := List.mem_map.mp hs
  exact ⟨le32_lt _ _, le32_lt _ _⟩

/-- **The loop over the sections loads them.** -/
theorem Loading.mapSections {sections : List SectionHeader}
    (h : Loading image.imageBase segs proc.mm_ k) (hbase : pml4e image.imageBase < 0x100)
    (hsections : ∀ s ∈ sections, s.virtualSize < 2 ^ 32 ∧ s.virtualAddress < 2 ^ 32)
    (hs : KernelMemoryManager.mapSections fuel image sections proc k = .done (proc', k')) :
    ∃ segs', Loading image.imageBase segs' proc'.mm_ k' ∧ (∀ seg ∈ segs, seg ∈ segs') ∧
      ∀ s ∈ sections, sectionSegment image s ∈ segs' := by
  induction sections generalizing segs proc k with
  | nil =>
    cases hs
    exact ⟨segs, h, fun _ hseg => hseg, by simp⟩
  | cons s sections ih =>
    rw [KernelMemoryManager.mapSections] at hs
    obtain ⟨⟨proc₁, k₁⟩, hstep, hs⟩ := Outcome.bind_eq_done.mp hs
    obtain ⟨hsize, haddr⟩ := hsections s (List.mem_cons_self ..)
    obtain ⟨h₁, -⟩ := h.step hsize (sectionMemoryType_spec _).1
      (fun _ => near_section hbase haddr (roundUp_le hsize)) hstep
    obtain ⟨segs', h', hold, hnew⟩ :=
      ih h₁ (fun s' hs' => hsections s' (List.mem_cons_of_mem _ hs')) hs
    refine ⟨segs', h', fun seg hseg => hold _ (List.mem_cons_of_mem _ hseg), fun s' hs' => ?_⟩
    rcases List.mem_cons.mp hs' with rfl | hs'
    · exact hold _ (List.mem_cons_self ..)
    · exact hnew s' hs'

/-- Memory that does not start at a page cannot be mapped. -/
theorem rem_eq_zero (hfree : PageBlocks rem k.physicalPages_)
    (hs : k.allocAndCopySection proc fuel virt virtSize type source srcSize = .done (proc', k')) :
    rem = 0 := by
  obtain ⟨b, k₁, k₂, ret, mm', halloc, -, hmap, -⟩ := allocAndCopySection_eq_done hs
  have ha := allocPhysical_eq_done hfree halloc
  have hrem := ha.rem_eq
  have hbound := ha.bound
  obtain ⟨⟨ret', mm₁⟩, hrun, -⟩ := Outcome.bind_eq_done.mp hmap
  have hmod := (mapMemory_eq_done (mapMemory_start hrun).2).phys_mod
  have hnat : (BitVec.ofNat 64 b.ptr).toNat = b.ptr := by
    simp only [Block.fin] at hbound
    rw [BitVec.toNat_ofNat]
    exact Nat.mod_eq_of_lt (by omega)
  rw [hnat] at hmod
  rcases pageSize_toNat type with hP | hP | hP <;> rw [hP] at hmod <;> omega

/-- **Loading an image**: its segments are loaded. -/
theorem Loading.allocAndMapUserExe (h : Loading image.imageBase [] proc.mm_ k)
    (hs : k.allocAndMapUserExe proc fuel image = .done (proc', k')) :
    ∃ segs, Loading image.imageBase segs proc'.mm_ k' ∧
      segment image.imageBase image.sizeOfHeaders (MemoryType.read ||| MemoryType.user) image
        image.sizeOfHeaders ∈ segs ∧
      (∀ s ∈ image.sections, sectionSegment image s ∈ segs) ∧
      segment (image.imageBase - 0x8000) 0x8000
        (MemoryType.read ||| MemoryType.write ||| MemoryType.user) (fun _ => 0) 0 ∈ segs := by
  rw [KernelMemoryManager.allocAndMapUserExe] at hs
  obtain ⟨-, hs⟩ := Outcome.require_bind_eq_done.mp hs
  obtain ⟨⟨proc₁, k₁⟩, hheaders, hs⟩ := Outcome.bind_eq_done.mp hs
  obtain ⟨⟨proc₂, k₂⟩, hsections, hs⟩ := Outcome.bind_eq_done.mp hs
  obtain ⟨-, hs⟩ := Outcome.require_bind_eq_done.mp hs
  obtain ⟨⟨proc₃, k₃⟩, hstack, hs⟩ := Outcome.bind_eq_done.mp hs
  obtain ⟨-, hs⟩ := Outcome.require_bind_eq_done.mp hs
  obtain ⟨-, hs⟩ := Outcome.require_bind_eq_done.mp hs
  obtain ⟨-, hs⟩ := Outcome.require_bind_eq_done.mp hs
  cases hs
  -- the headers
  have hsize : image.sizeOfHeaders < 2 ^ 32 := le32_lt _ _
  obtain ⟨h₁, hbase⟩ := h.step hsize headersType_spec.1 (fun hlow => by
    simpa using near_section (a := 0) hlow (by decide) (roundUp_le hsize)) hheaders
  -- the sections
  obtain ⟨segs, h₂, hold, hnew⟩ := h₁.mapSections hbase (fun s hs => sections_lt hs) hsections
  -- the stack
  obtain ⟨h₃, -⟩ := h₂.step (by decide) stackType_spec.1 (near_stack hbase) hstack
  exact ⟨_, h₃, List.mem_cons_of_mem _ (hold _ (List.mem_cons_self ..)),
    fun s hs => List.mem_cons_of_mem _ (hnew s hs), List.mem_cons_self ..⟩

/-- **User image loading.** A process is created; the rest of the system runs; an
image is loaded into the process. If this returns, the image is in its address
space. -/
theorem user_image {page : Block} {next : Option ℕ} (hfree : PageBlocks rem k₀.physicalPages_)
    (hcreate : k₀.createDefaultMemoryManager = .done (page, mm, k₁)) (hothers : OthersRan rem k₁ mm k₂)
    (hs : k₂.allocAndMapUserExe (UserProcess.new page mm next) fuel image = .done (proc, k)) :
    HasImage k proc.mm_ image := by
  -- physical memory starts at a page
  have hrem : rem = 0 := by
    rw [KernelMemoryManager.allocAndMapUserExe] at hs
    obtain ⟨-, hs⟩ := Outcome.require_bind_eq_done.mp hs
    obtain ⟨⟨proc₁, k₃⟩, hheaders, -⟩ := Outcome.bind_eq_done.mp hs
    exact rem_eq_zero hothers.free hheaders
  subst hrem
  obtain ⟨hspace, hlisted⟩ := createDefaultMemoryManager_eq_done hfree hcreate
  have hloading : Loading image.imageBase [] (UserProcess.new page mm next).mm_ k₂ :=
    ⟨(hspace.others hothers).1, by simp, ⟨[], hlisted, by simp⟩, by simp⟩
  obtain ⟨segs, hl, hheaders, hsections, hstack⟩ := hloading.allocAndMapUserExe hs
  have hspace' := hl.space
  refine ⟨fun s hmem => ?_, fun s hmem => ?_, fun i hi => ?_, ?_, fun i hi => ?_, ?_⟩
  · obtain ⟨phys, hloaded⟩ := hl.loaded _ (hsections s hmem)
    exact hloaded.reads hspace' (sectionMemoryType_spec _).1
  · obtain ⟨phys, hloaded⟩ := hl.loaded _ (hsections s hmem)
    obtain ⟨htype, huser, hwrite, hexecute⟩ := sectionMemoryType_spec s.characteristics
    exact hloaded.permits hspace' htype huser hwrite hexecute
  · obtain ⟨phys, hloaded⟩ := hl.loaded _ hheaders
    have hle : image.sizeOfHeaders ≤ roundUp image.sizeOfHeaders := by
      rw [roundUp_eq (show image.sizeOfHeaders < 2 ^ 32 from le32_lt _ _)]
      omega
    refine (hloaded.reads hspace' headersType_spec.1 i (lt_of_lt_of_le hi hle)).trans ?_
    exact congrArg Outcome.done (if_pos (by omega))
  · obtain ⟨phys, hloaded⟩ := hl.loaded _ hheaders
    obtain ⟨htype, huser, hwrite, hexecute⟩ := headersType_spec
    exact hloaded.permits hspace' htype huser hwrite hexecute
  · obtain ⟨phys, hloaded⟩ := hl.loaded _ hstack
    refine (hloaded.reads hspace' stackType_spec.1 i hi).trans (congrArg Outcome.done ?_)
    simp only [segment, ite_self]
  · obtain ⟨phys, hloaded⟩ := hl.loaded _ hstack
    obtain ⟨htype, huser, hwrite, hexecute⟩ := stackType_spec
    exact hloaded.permits hspace' htype huser hwrite hexecute

/-- 64 free pages of physical memory. -/
def freeMemory : KernelMemoryManager where
  mem := fun _ _ => 0
  physicalPages_ := [⟨0x100000, 0x40000⟩]
  pml4_ := 0x10000

/-- An image with one section, of code. -/
def codeImage : Image := fun a =>
  ([(0, 0x4d), (1, 0x5a), (0x3c, 0x40),
    -- the signature, the machine and the number of sections
    (0x40, 0x50), (0x41, 0x45), (0x44, 0x64), (0x45, 0x86), (0x46, 1), (0x54, 0xf0),
    -- the optional header
    (0x58, 0x0b), (0x59, 0x02), (0x69, 0x10), (0x72, 0x40), (0x95, 0x02), (0xa9, 0x10),
    -- the section header
    (0x150, 0x10), (0x155, 0x10), (0x159, 0x02), (0x15d, 0x02), (0x16c, 0x20), (0x16f, 0x60),
    -- the section
    (0x200, 0xc3)].lookup a).getD 0

/-- Load it into a new process. -/
theorem user_image_code : ∃ page mm k₁ proc k,
    freeMemory.createDefaultMemoryManager = .done (page, mm, k₁) ∧
    k₁.allocAndMapUserExe (UserProcess.new page mm none) 10 codeImage = .done (proc, k) ∧
      HasImage k proc.mm_ codeImage := by
  have hruns : (do
      let r ← freeMemory.createDefaultMemoryManager
      r.2.2.allocAndMapUserExe (UserProcess.new r.1 r.2.1 none) 10 codeImage).Returns := by decide +kernel
  obtain ⟨⟨proc, k⟩, hrun⟩ := hruns
  obtain ⟨⟨page, mm, k₁⟩, hcreate, hs⟩ := Outcome.bind_eq_done.mp hrun
  have hfree : PageBlocks 0 freeMemory.physicalPages_ :=
    ⟨List.pairwise_singleton _ _, by simp [freeMemory], by simp [freeMemory, Block.fin]⟩
  obtain ⟨hspace, -⟩ := createDefaultMemoryManager_eq_done hfree hcreate
  have hothers : OthersRan 0 k₁ mm k₁ := ⟨hspace.free, fun _ _ _ => rfl, hspace.used⟩
  exact ⟨page, mm, k₁, proc, k, hcreate, hs, user_image hfree hcreate hothers hs⟩

end Attos
