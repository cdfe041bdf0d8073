import Attos.Asm.InterruptEntry

/-!
# The code of the interrupt gates

The constructor of `isr_handler_impl` writes a few instructions for each of the 256 interrupts, nine
bytes apart, and makes the interrupt descriptor table refer to them. The bytes of one interrupt are
not overwritten by those of the others (`isrHandlerInit_step`), and they are fetched as the
instructions of `isrCode` and a jump to `isr_common` (`fetches_isrBytes`). So every interrupt goes
through its gate to `isr_common`, with its number on the stack (`interrupt_dispatch`).
-/

namespace Attos.Asm

open Lib Lib.X64

/-! ## `code_builder` -/

/-- `code_builder`, and the memory that it writes to. -/
structure CodeBuilder : Type where
  /-- where the code is -/
  code_ : Word
  /-- how many bytes there are -/
  pos_ : ℕ
  /-- the memory -/
  mem : Ram

namespace CodeBuilder

/-- `code_[pos_++] = b` -/
def put (c : CodeBuilder) (b : UInt8) : CodeBuilder :=
  ⟨c.code_, c.pos_ + 1, Function.update c.mem (c.code_ + BitVec.ofNat 64 c.pos_) b⟩

/-- Some bytes are written. -/
def putBytes (c : CodeBuilder) (l : List UInt8) : CodeBuilder := l.foldl put c

/-- `push_imm8` -/
def pushImm8 (c : CodeBuilder) (imm : BitVec 8) : CodeBuilder := c.putBytes [0x6A, UInt8.ofBitVec imm]

/-- `jmp_rel32` -/
def jmpRel32 (c : CodeBuilder) (target : Word) : Outcome CodeBuilder := do
  let offset := target - (c.code_ + BitVec.ofNat 64 c.pos_ + 5)
  Outcome.require (-2 ^ 31 ≤ offset.toInt ∧ offset.toInt ≤ 2 ^ 31 - 1)
  pure (c.putBytes (0xE9 :: (List.range 4).map (byteOf offset)))

end CodeBuilder

/-! ## Gates -/

/-- `interrupt_gate` -/
structure InterruptGate : Type where
  /-- `offset_low` -/
  offsetLow : BitVec 16
  /-- `selector` -/
  selector : BitVec 16
  /-- `ist` -/
  ist : BitVec 8
  /-- `type` -/
  type : BitVec 8
  /-- `offset_mid` -/
  offsetMid : BitVec 16
  /-- `offset_high` -/
  offsetHigh : BitVec 32
  /-- `reserved` -/
  reserved : BitVec 32

/-- `set_idt_entry` -/
def setIdtEntry (code : Word) (dpl : BitVec 8) : InterruptGate where
  offsetLow := (code &&& 0xffff).setWidth 16
  selector := kernelCs
  ist := 0
  type := 0x8E ||| (dpl <<< 5)
  offsetMid := ((code >>> 16) &&& 0xffff).setWidth 16
  offsetHigh := (code >>> 32).setWidth 32
  reserved := 0

/-- The address in a gate, as the processor reads it. -/
def InterruptGate.handler (gate : InterruptGate) : Word := gate.offsetHigh ++ gate.offsetMid ++ gate.offsetLow

/-- `isr_code_size` -/
def isrCodeSize : ℕ := 9

/-- `idt_count` -/
def idtCount : ℕ := 256

/-- The code of the interrupt `i`, in the constructor. -/
def buildIsrCode (code isrCommon : Word) (mem : Ram) (i : ℕ) : Outcome Ram := do
  let n := BitVec.ofNat 8 i
  let c : CodeBuilder := ⟨code + BitVec.ofNat 64 (isrCodeSize * i), 0, mem⟩
  let c := if ¬ HasErrorCode n then c.pushImm8 0 else c
  let c := c.pushImm8 n
  let c ← c.jmpRel32 isrCommon
  pure c.mem

/-- The loop of the constructor of `isr_handler_impl`, over some interrupts. -/
def isrHandlerInit (code isrCommon : Word) : List ℕ → Ram × (ℕ → InterruptGate) → Outcome (Ram × (ℕ → InterruptGate))
  | [], s => .done s
  | i :: is, (mem, idt) => do
    let mem ← buildIsrCode code isrCommon mem i
    isrHandlerInit code isrCommon is
      (mem, Function.update idt i (setIdtEntry (code + BitVec.ofNat 64 (isrCodeSize * i)) 0))

/-! ## Fetching -/

/-- Fetch and execute an instruction, if it is one of those that the constructor writes. -/
def fetch (m : Machine) : Option Machine :=
  if m.mem m.rip = 0x6A then
    some { m.pushWord ((m.mem (m.rip + 1)).toBitVec.signExtend 64) with rip := m.rip + 2 }
  else if m.mem m.rip = 0xE9 then some { m with rip := m.rip + 5 + (m.mem.load32 (m.rip + 1)).signExtend 64 }
  else none

/-- Fetch and execute some instructions. -/
def fetches : ℕ → Machine → Option Machine
  | 0, m => some m
  | k + 1, m => do
    let m ← fetch m
    fetches k m

/-- The bytes of an interrupt. -/
def isrBytes (n : BitVec 8) (offset : Word) : List UInt8 :=
  (if HasErrorCode n then [] else [0x6A, 0]) ++ [0x6A, UInt8.ofBitVec n] ++ 0xE9 :: (List.range 4).map (byteOf offset)

/-- The offset of the jump: the bytes in front of it depend on whether there is an error code. -/
def isrOffset (code isrCommon : Word) (i : ℕ) : Word :=
  isrCommon - (code + BitVec.ofNat 64 (isrCodeSize * i) + BitVec.ofNat 64 (if HasErrorCode (BitVec.ofNat 8 i) then 2 else 4) + 5)

/-- The jump reaches `isr_common`. -/
def Reaches (code isrCommon : Word) (i : ℕ) : Prop :=
  -2 ^ 31 ≤ (isrOffset code isrCommon i).toInt ∧ (isrOffset code isrCommon i).toInt ≤ 2 ^ 31 - 1

instance (code isrCommon : Word) (i : ℕ) : Decidable (Reaches code isrCommon i) :=
  inferInstanceAs (Decidable (_ ∧ _))

/-! ## What is written -/

section Build

variable {code isrCommon : Word} {mem mem' : Ram} {i : ℕ}

/-- Bytes are written one behind the other. -/
theorem CodeBuilder.putBytes_eq (c : CodeBuilder) (l : List UInt8) (hl : l.length < 2 ^ 64) :
    c.putBytes l = ⟨c.code_, c.pos_ + l.length,
      c.mem.store (c.code_ + BitVec.ofNat 64 c.pos_) l.length fun i => l.getD i 0⟩ := by
  induction l using List.reverseRecOn with
  | nil =>
    have hnone : c.mem.store (c.code_ + BitVec.ofNat 64 c.pos_) 0 (fun i => ([] : List UInt8).getD i 0) = c.mem :=
      funext fun x => Ram.store_of_not_inBlock (Nat.not_lt_zero _)
    rw [List.length_nil, hnone]
    rfl
  | append_singleton l b ih =>
    rw [List.length_append, List.length_singleton] at hl
    have hput : c.putBytes (l ++ [b]) = (c.putBytes l).put b := by
      rw [putBytes, List.foldl_append, putBytes]
      rfl
    rw [hput, ih (by omega), put, List.length_append, List.length_singleton]
    congr 1
    funext x
    have hat : c.code_ + BitVec.ofNat 64 (c.pos_ + l.length) =
        c.code_ + BitVec.ofNat 64 c.pos_ + BitVec.ofNat 64 l.length := by
      rw [BitVec.ofNat_add, BitVec.add_assoc]
    rw [hat]
    by_cases hx : x = c.code_ + BitVec.ofNat 64 c.pos_ + BitVec.ofNat 64 l.length
    · have hindex := add_sub_toNat (c.code_ + BitVec.ofNat 64 c.pos_) (i := l.length) (by omega)
      rw [hx, Function.update_self, Ram.store_of_inBlock (inBlock_add _ (Nat.lt_succ_self _) (by omega)), hindex,
        List.getD_eq_getElem?_getD, List.getElem?_concat_length]
      rfl
    · rw [Function.update_of_ne hx]
      change c.mem.store (c.code_ + BitVec.ofNat 64 c.pos_) l.length (fun i => l.getD i 0) x = _
      by_cases hin : InBlock (c.code_ + BitVec.ofNat 64 c.pos_) l.length x
      · rw [Ram.store_of_inBlock hin, Ram.store_of_inBlock (Nat.lt_succ_of_lt hin), List.getD_eq_getElem?_getD, List.getD_eq_getElem?_getD,
          List.getElem?_append_left hin]
      · have hout : ¬ InBlock (c.code_ + BitVec.ofNat 64 c.pos_) (l.length + 1) x := by
          intro h
          obtain ⟨j, hj, rfl⟩ := h.exists_add
          have hlast : j = l.length := by
            by_contra hne
            exact hin (inBlock_add _ (by omega) (by omega))
          exact hx (hlast ▸ rfl)
        rw [Ram.store_of_not_inBlock hin, Ram.store_of_not_inBlock hout]

theorem length_isrBytes (n : BitVec 8) (offset : Word) :
    (isrBytes n offset).length = (if HasErrorCode n then 2 else 4) + 5 := by
  rw [isrBytes]
  split_ifs <;> rfl

theorem length_isrBytes_le (n : BitVec 8) (offset : Word) : (isrBytes n offset).length ≤ isrCodeSize := by
  rw [length_isrBytes]
  split_ifs <;> decide

theorem CodeBuilder.putBytes_append (c : CodeBuilder) (l l' : List UInt8) :
    (c.putBytes l).putBytes l' = c.putBytes (l ++ l') := (List.foldl_append ..).symm

/-- A jump behind some bytes. -/
theorem CodeBuilder.jmpRel32_putBytes (c : CodeBuilder) (l : List UInt8) (hl : l.length < 2 ^ 64) (target : Word)
    {offset : Word} (hoffset : offset = target - (c.code_ + BitVec.ofNat 64 (c.pos_ + l.length) + 5)) :
    (c.putBytes l).jmpRel32 target = (do
      Outcome.require (-2 ^ 31 ≤ offset.toInt ∧ offset.toInt ≤ 2 ^ 31 - 1)
      pure (c.putBytes (l ++ 0xE9 :: (List.range 4).map (byteOf offset)))) := by
  rw [jmpRel32, putBytes_append, c.putBytes_eq l hl]
  subst hoffset
  rfl

/-- **The code of an interrupt** is written, if the jump reaches. -/
theorem buildIsrCode_eq : buildIsrCode code isrCommon mem i = (do
    Outcome.require (Reaches code isrCommon i)
    pure (mem.store (code + BitVec.ofNat 64 (isrCodeSize * i))
      (isrBytes (BitVec.ofNat 8 i) (isrOffset code isrCommon i)).length
      fun j => (isrBytes (BitVec.ofNat 8 i) (isrOffset code isrCommon i)).getD j 0)) := by
  let n := BitVec.ofNat 8 i
  let c : CodeBuilder := ⟨code + BitVec.ofNat 64 (isrCodeSize * i), 0, mem⟩
  let l : List UInt8 := (if HasErrorCode n then [] else [0x6A, 0]) ++ [0x6A, UInt8.ofBitVec n]
  have hlength : l.length = if HasErrorCode n then 2 else 4 := by
    change ((if HasErrorCode n then [] else [0x6A, 0]) ++ [0x6A, UInt8.ofBitVec n] : List UInt8).length = _
    split_ifs <;> rfl
  have hlt : l.length < 2 ^ 64 := by
    rw [hlength]
    split_ifs <;> decide
  have hpushed : (if ¬ HasErrorCode n then c.pushImm8 0 else c).pushImm8 n = c.putBytes l := by
    change _ = c.putBytes ((if HasErrorCode n then [] else [0x6A, 0]) ++ [0x6A, UInt8.ofBitVec n])
    by_cases hn : HasErrorCode n
    · rw [if_neg (not_not_intro hn), if_pos hn]
      rfl
    · rw [if_pos hn, if_neg hn]
      rfl
  have hoffset : isrOffset code isrCommon i = isrCommon - (c.code_ + BitVec.ofNat 64 (c.pos_ + l.length) + 5) := by
    rw [hlength, isrOffset]
    change _ = isrCommon - (code + BitVec.ofNat 64 (isrCodeSize * i) + BitVec.ofNat 64 (0 + _) + 5)
    rw [Nat.zero_add]
  have hbytes : l ++ 0xE9 :: (List.range 4).map (byteOf (isrOffset code isrCommon i)) =
      isrBytes n (isrOffset code isrCommon i) := rfl
  have hsize : (isrBytes n (isrOffset code isrCommon i)).length < 2 ^ 64 :=
    (length_isrBytes_le _ _).trans_lt (by decide)
  change (do
    let c ← ((if ¬ HasErrorCode n then c.pushImm8 0 else c).pushImm8 n).jmpRel32 isrCommon
    pure c.mem) = _
  rw [hpushed, c.jmpRel32_putBytes l hlt isrCommon hoffset, hbytes, c.putBytes_eq _ hsize]
  by_cases hreach : -2 ^ 31 ≤ (isrOffset code isrCommon i).toInt ∧ (isrOffset code isrCommon i).toInt ≤ 2 ^ 31 - 1
  · rw [Outcome.require_pos hreach, Outcome.require_pos (show Reaches code isrCommon i from hreach)]
    simp only [Outcome.done_bind, Outcome.pure_eq]
    change Outcome.done (mem.store (code + BitVec.ofNat 64 (isrCodeSize * i) + BitVec.ofNat 64 0) _ _) = _
    rw [BitVec.add_zero]
  · rw [Outcome.require_neg hreach, Outcome.require_neg (show ¬ Reaches code isrCommon i from hreach)]
    rfl

end Build

/-! ## The constructor -/

/-- The bytes of the interrupt `i` are in memory. -/
def HasIsrCode (code isrCommon : Word) (mem : Ram) (i : ℕ) : Prop :=
  ∀ j < (isrBytes (BitVec.ofNat 8 i) (isrOffset code isrCommon i)).length,
    mem (code + BitVec.ofNat 64 (isrCodeSize * i) + BitVec.ofNat 64 j) =
      (isrBytes (BitVec.ofNat 8 i) (isrOffset code isrCommon i)).getD j 0

section Init

variable {code isrCommon : Word} {mem mem' : Ram} {idt idt' : ℕ → InterruptGate} {i k : ℕ} {is : List ℕ}

/-- The code of an interrupt is where no other one is. -/
theorem isrCode_apart (hi : i < idtCount) (hk : k < idtCount) (hne : i ≠ k) :
    Lib.Apart (code + BitVec.ofNat 64 (isrCodeSize * i)) isrCodeSize
      (code + BitVec.ofNat 64 (isrCodeSize * k)) isrCodeSize := by
  have hsize : isrCodeSize = 9 := rfl
  have hcount : idtCount = 256 := rfl
  rw [hsize] at *
  exact apart_of_le code (by omega) (by omega) (by omega) (by decide) (by decide)

/-- **One pass** of the loop writes the code of an interrupt, and keeps that of the others. -/
theorem isrHandlerInit_step (hbuild : buildIsrCode code isrCommon mem i = .done mem') (hi : i < idtCount) :
    Reaches code isrCommon i ∧ HasIsrCode code isrCommon mem' i ∧
      ∀ k < idtCount, k ≠ i → HasIsrCode code isrCommon mem k → HasIsrCode code isrCommon mem' k := by
  rw [buildIsrCode_eq, Outcome.require_bind_eq_done] at hbuild
  obtain ⟨hreach, hmem⟩ := hbuild
  have hlength := length_isrBytes_le (BitVec.ofNat 8 i) (isrOffset code isrCommon i)
  have hsize : isrCodeSize = 9 := rfl
  cases hmem
  refine ⟨hreach, fun j hj => ?_, fun k hk hne h j hj => ?_⟩
  · rw [Ram.store_of_inBlock (inBlock_add _ hj (by omega)), add_sub_toNat _ (by omega)]
  · have hapart : Lib.Apart (code + BitVec.ofNat 64 (isrCodeSize * i)) _ (code + BitVec.ofNat 64 (isrCodeSize * k)) _ :=
      (isrCode_apart hi hk (Ne.symm hne)).mono hlength le_rfl
    have hlength' := length_isrBytes_le (BitVec.ofNat 8 k) (isrOffset code isrCommon k)
    rw [Ram.store_apart hapart (inBlock_add _ (hj.trans_le hlength') (by omega))]
    exact h j hj

/-- **The loop** writes the code of all interrupts, and their gates. -/
theorem isrHandlerInit_writes (h : isrHandlerInit code isrCommon is (mem, idt) = .done (mem', idt'))
    (his : ∀ i ∈ is, i < idtCount) (hnodup : is.Nodup) :
    (∀ i ∈ is, Reaches code isrCommon i ∧ HasIsrCode code isrCommon mem' i ∧
      idt' i = setIdtEntry (code + BitVec.ofNat 64 (isrCodeSize * i)) 0) ∧
      ∀ k < idtCount, k ∉ is → (HasIsrCode code isrCommon mem k → HasIsrCode code isrCommon mem' k) ∧
        idt' k = idt k := by
  induction is generalizing mem idt with
  | nil => cases h; exact ⟨nofun, fun k _ _ => ⟨id, rfl⟩⟩
  | cons i is ih =>
    obtain ⟨mem₁, hbuild, hrest⟩ := Outcome.bind_eq_done.mp h
    obtain ⟨hni, hnodup⟩ := List.nodup_cons.mp hnodup
    have hi := his i List.mem_cons_self
    obtain ⟨hreach, hcode, hkeeps⟩ := isrHandlerInit_step hbuild hi
    obtain ⟨hall, hothers⟩ := ih hrest (fun i hi => his i (List.mem_cons_of_mem _ hi)) hnodup
    obtain ⟨hkept, hgate⟩ := hothers i hi hni
    refine ⟨fun k hk => ?_, fun k hk hnot => ?_⟩
    · obtain rfl | hk := List.mem_cons.mp hk
      · exact ⟨hreach, hkept hcode, hgate.trans (Function.update_self ..)⟩
      · exact hall k hk
    · obtain ⟨hne, hnot⟩ := not_or.mp (List.mem_cons.not.mp hnot)
      obtain ⟨hkept, hgate⟩ := hothers k hk hnot
      exact ⟨fun h => hkept (hkeeps k hk hne h), hgate.trans (Function.update_of_ne hne ..)⟩

/-- The loop comes to its end if all jumps reach. -/
theorem isrHandlerInit_returns : (isrHandlerInit code isrCommon is (mem, idt)).Returns ↔
    ∀ i ∈ is, Reaches code isrCommon i := by
  induction is generalizing mem idt with
  | nil => exact ⟨fun _ => nofun, fun _ => ⟨_, rfl⟩⟩
  | cons i is ih =>
    rw [isrHandlerInit, buildIsrCode_eq]
    by_cases hreach : Reaches code isrCommon i
    · rw [Outcome.require_pos hreach, Outcome.done_bind, Outcome.pure_eq, Outcome.done_bind, ih, List.forall_mem_cons]
      exact (and_iff_right hreach).symm
    · rw [Outcome.require_neg hreach]
      refine ⟨?_, fun h => absurd (h i List.mem_cons_self) hreach⟩
      rintro ⟨s, hs⟩
      cases hs

theorem toNat_low16 (w : Word) : ((w &&& 0xffff).setWidth 16).toNat = w.toNat % 2 ^ 16 := by
  have hand : w.toNat &&& 65535 = w.toNat % 2 ^ 16 := Nat.and_two_pow_sub_one_eq_mod w.toNat 16
  have htoNat : (w &&& 0xffff).toNat = w.toNat &&& 65535 := BitVec.toNat_and ..
  rw [BitVec.toNat_setWidth, htoNat, hand, Nat.mod_mod]

/-- The processor finds the address that was put into a gate. -/
theorem setIdtEntry_handler (code : Word) (dpl : BitVec 8) : (setIdtEntry code dpl).handler = code := by
  have hlt := code.isLt
  have hlow : (setIdtEntry code dpl).offsetLow.toNat = code.toNat % 2 ^ 16 := toNat_low16 code
  have hmid : (setIdtEntry code dpl).offsetMid.toNat = code.toNat / 2 ^ 16 % 2 ^ 16 :=
    (toNat_low16 (code >>> 16)).trans (by rw [BitVec.toNat_ushiftRight, Nat.shiftRight_eq_div_pow])
  have hhigh : (setIdtEntry code dpl).offsetHigh.toNat = code.toNat / 2 ^ 32 % 2 ^ 32 := by
    rw [setIdtEntry, BitVec.toNat_setWidth, BitVec.toNat_ushiftRight, Nat.shiftRight_eq_div_pow]
  apply BitVec.eq_of_toNat_eq
  rw [InterruptGate.handler, BitVec.toNat_append, BitVec.toNat_append, hlow, hmid, hhigh,
    ← Nat.shiftLeft_add_eq_or_of_lt (by omega), ← Nat.shiftLeft_add_eq_or_of_lt (by omega), Nat.shiftLeft_eq,
    Nat.shiftLeft_eq]
  omega

end Init

/-! ## Execution -/

section Fetch

variable {m : Machine} {n : BitVec 8} {offset target : Word}

theorem fetch_push {imm : BitVec 8} (hop : m.mem m.rip = 0x6A) (himm : m.mem (m.rip + 1) = UInt8.ofBitVec imm) :
    fetch m = some { m.pushWord (imm.signExtend 64) with rip := m.rip + 2 } := by
  rw [fetch, if_pos hop, himm]

/-- A jump with 32 bits reaches everything that is near. -/
theorem signExtend_setWidth (h : -2 ^ 31 ≤ offset.toInt ∧ offset.toInt ≤ 2 ^ 31 - 1) :
    (offset.setWidth 32).signExtend 64 = offset := by
  have hlt := offset.isLt
  apply BitVec.eq_of_toInt_eq
  rw [BitVec.toInt_signExtend_of_le (by decide), BitVec.toInt_setWidth]
  rw [BitVec.toInt_eq_toNat_bmod] at *
  simp only [Int.bmod_def] at *
  omega

/-- The four bytes of a jump are read back. -/
theorem fetch_jmp (hop : m.mem m.rip = 0xE9) (hoffset : ∀ j < 4, m.mem (m.rip + 1 + BitVec.ofNat 64 j) = byteOf offset j)
    (hreach : -2 ^ 31 ≤ offset.toInt ∧ offset.toInt ≤ 2 ^ 31 - 1) :
    fetch m = some { m with rip := m.rip + 5 + offset } := by
  have hnot : m.mem m.rip ≠ 0x6A := by
    rw [hop]
    decide
  have hload : m.mem.load32 (m.rip + 1) = offset.setWidth 32 := by
    have hlt := offset.isLt
    apply BitVec.eq_of_toNat_eq
    rw [Ram.load32, BitVec.toNat_ofNat, BitVec.toNat_setWidth]
    simp only [le32, le16, Nat.zero_add, Nat.reduceAdd, hoffset 0 (by decide), hoffset 1 (by decide),
      hoffset 2 (by decide), hoffset 3 (by decide), byteOf, UInt8.toNat_ofNat', pow_zero, pow_one, Nat.div_one]
    omega
  rw [fetch, if_neg hnot, if_pos hop, hload, signExtend_setWidth hreach]

/-- The code `l` is at an address, and the next words of the stack are elsewhere. -/
structure CodeAt (a : Word) (l : List UInt8) (words : ℕ) (m : Machine) : Prop where
  /-- it is short -/
  length : l.length ≤ isrCodeSize
  /-- the bytes -/
  byte : ∀ j < l.length, m.mem (a + BitVec.ofNat 64 j) = l.getD j 0
  /-- the stack -/
  stack : ∀ x, InBlock (m.reg .rsp - BitVec.ofNat 64 (8 * words)) (8 * words) x → ¬ InBlock a isrCodeSize x

/-- **A push** does not change the code. -/
theorem CodeAt.push {a rip : Word} {l : List UInt8} {words : ℕ} (h : CodeAt a l (words + 1) m) (hwords : words ≤ 2)
    (v : Word) : CodeAt a l words { m.pushWord v with rip := rip } := by
  have hlength := h.length
  have hsize : isrCodeSize = 9 := rfl
  refine ⟨h.length, fun j hj => ?_, fun x hx => ?_⟩
  · have hout : ¬ InBlock (m.reg .rsp - 8) 8 (a + BitVec.ofNat 64 j) := by
      intro hin
      refine h.stack _ ?_ (inBlock_add a (hj.trans_le hlength) (by decide))
      exact inBlock_below (d := 8) hin (by omega) (by omega) (by omega)
    change (m.pushWord v).mem _ = _
    rw [Machine.pushWord_mem, Ram.store64, Ram.store_of_not_inBlock hout]
    exact h.byte j hj
  · change InBlock ((m.pushWord v).reg .rsp - BitVec.ofNat 64 (8 * words)) (8 * words) x at hx
    have hbelow : m.reg .rsp - 8 - BitVec.ofNat 64 (8 * words) = m.reg .rsp - BitVec.ofNat 64 (8 * (words + 1)) := by
      rw [Nat.mul_add, BitVec.ofNat_add]
      change m.reg .rsp - 8 - BitVec.ofNat 64 (8 * words) = m.reg .rsp - (BitVec.ofNat 64 (8 * words) + 8)
      grind
    rw [Machine.pushWord_rsp, hbelow] at hx
    exact h.stack x (inBlock_below hx le_rfl (by omega) (by omega))

/-- The jump at the end of the code. -/
theorem CodeAt.jmp {a : Word} {l : List UInt8} {words : ℕ}
    (h : CodeAt a (l ++ 0xE9 :: (List.range 4).map (byteOf offset)) words m)
    (hrip : m.rip = a + BitVec.ofNat 64 l.length) (hreach : -2 ^ 31 ≤ offset.toInt ∧ offset.toInt ≤ 2 ^ 31 - 1) :
    fetch m = some { m with rip := a + BitVec.ofNat 64 l.length + 5 + offset } := by
  have hall : (l ++ 0xE9 :: (List.range 4).map (byteOf offset)).length = l.length + 5 := by simp
  have hbyte : ∀ j < 5, m.mem (a + BitVec.ofNat 64 l.length + BitVec.ofNat 64 j) =
      (0xE9 :: (List.range 4).map (byteOf offset)).getD j 0 := by
    intro j hj
    rw [BitVec.add_assoc, ← BitVec.ofNat_add, h.byte _ (by omega), List.getD_eq_getElem?_getD,
      List.getElem?_append_right (Nat.le_add_right ..), Nat.add_sub_cancel_left, ← List.getD_eq_getElem?_getD]
  have hop : m.mem m.rip = 0xE9 := by
    rw [hrip]
    exact (congrArg m.mem (BitVec.add_zero _).symm).trans (hbyte 0 (by decide))
  rw [← hrip] at hbyte ⊢
  refine fetch_jmp hop (fun j hj => ?_) hreach
  rw [BitVec.add_assoc]
  change m.mem (m.rip + (BitVec.ofNat 64 1 + BitVec.ofNat 64 j)) = _
  rw [← BitVec.ofNat_add, hbyte _ (by omega), Nat.add_comm, List.getD_cons_succ, List.getD_eq_getElem?_getD,
    List.getElem?_map, List.getElem?_range hj]
  rfl

/-- A push in the code. -/
theorem CodeAt.fetch_push {a : Word} {l l' : List UInt8} {words : ℕ} (imm : BitVec 8)
    (h : CodeAt a (l ++ [0x6A, UInt8.ofBitVec imm] ++ l') (words + 1) m) (hwords : words ≤ 2)
    (hrip : m.rip = a + BitVec.ofNat 64 l.length) :
    ∃ m', fetch m = some m' ∧ m' = { m.pushWord (imm.signExtend 64) with rip := m'.rip } ∧
      m'.rip = a + BitVec.ofNat 64 (l ++ [0x6A, UInt8.ofBitVec imm]).length ∧
      CodeAt a (l ++ [0x6A, UInt8.ofBitVec imm] ++ l') words m' := by
  have hall : (l ++ [0x6A, UInt8.ofBitVec imm] ++ l').length = l.length + (2 + l'.length) := by
    rw [List.append_assoc, List.length_append]
    simp
    omega
  have hbyte : ∀ j < 2, m.mem (m.rip + BitVec.ofNat 64 j) = [0x6A, UInt8.ofBitVec imm].getD j 0 := by
    intro j hj
    rw [hrip, BitVec.add_assoc, ← BitVec.ofNat_add, h.byte _ (by omega), List.append_assoc, List.getD_eq_getElem?_getD,
      List.getElem?_append_right (Nat.le_add_right ..), Nat.add_sub_cancel_left, List.getElem?_append_left hj,
      ← List.getD_eq_getElem?_getD]
  have hop : m.mem m.rip = 0x6A := (congrArg m.mem (BitVec.add_zero _).symm).trans (hbyte 0 (by decide))
  refine ⟨_, Asm.fetch_push hop (hbyte 1 (by decide)), rfl, ?_, h.push hwords _⟩
  change m.rip + 2 = _
  rw [hrip, List.length_append, BitVec.ofNat_add, ← BitVec.add_assoc]
  rfl

/-- **The code of an interrupt** is executed: it pushes its words, and jumps. -/
theorem fetches_isrBytes {a : Word} (h : CodeAt a (isrBytes n offset) (isrWords n).length m) (hrip : m.rip = a)
    (hreach : -2 ^ 31 ≤ offset.toInt ∧ offset.toInt ≤ 2 ^ 31 - 1) :
    ∃ k, fetches k m = some { m.pushWords (isrWords n) with
      rip := a + BitVec.ofNat 64 (if HasErrorCode n then 2 else 4) + 5 + offset } := by
  rw [isrBytes] at h
  have hfirst : m.rip = a + BitVec.ofNat 64 0 := hrip.trans (BitVec.add_zero a).symm
  by_cases hn : HasErrorCode n
  · rw [isrWords, if_pos hn, if_pos hn] at h
    rw [isrWords, if_pos hn, if_pos hn]
    obtain ⟨m₁, hfetch₁, hm₁, hrip₁, h₁⟩ := CodeAt.fetch_push (l := []) n h (by simp) hfirst
    have hjmp := h₁.jmp hrip₁ hreach
    refine ⟨2, ?_⟩
    rw [fetches, hfetch₁, Option.bind_eq_bind, Option.bind_some, fetches, hjmp, Option.bind_eq_bind, Option.bind_some,
      fetches, hm₁]
    rfl
  · rw [isrWords, if_neg hn, if_neg hn, List.append_assoc] at h
    rw [isrWords, if_neg hn, if_neg hn]
    obtain ⟨m₁, hfetch₁, hm₁, hrip₁, h₁⟩ := CodeAt.fetch_push (l := []) 0 h (by simp) hfirst
    rw [List.nil_append, ← List.append_assoc] at h₁
    obtain ⟨m₂, hfetch₂, hm₂, hrip₂, h₂⟩ := CodeAt.fetch_push n h₁ (by simp) hrip₁
    have hjmp := h₂.jmp hrip₂ hreach
    refine ⟨3, ?_⟩
    rw [fetches, hfetch₁, Option.bind_eq_bind, Option.bind_some, fetches, hfetch₂, Option.bind_eq_bind, Option.bind_some,
      fetches, hjmp, Option.bind_eq_bind, Option.bind_some, fetches, hm₂, hm₁]
    rfl

end Fetch

/-! ## The result -/

section Result

variable {code isrCommon : Word} {mem mem' : Ram} {idt idt' : ℕ → InterruptGate} {error : Option Word}

/-- An interrupt and its code push seven words together. -/
theorem length_interruptWords (n : BitVec 8) (herror : error.isSome ↔ HasErrorCode n) :
    5 + error.toList.length + (isrWords n).length = 7 := by
  cases error with
  | none => rw [isrWords, if_neg fun h => Bool.false_ne_true (herror.mpr h)]; rfl
  | some e => rw [isrWords, if_pos (herror.mp rfl)]; rfl

/-- **Every interrupt gets to `isr_common`.** Once the constructor is through, an interrupt goes
through a gate for interrupts of the kernel to the code that was written for it. As long as the code
is still there, and not on the stack of the interrupt, it is executed as `isrCode` says, and jumps to
`isr_common`. -/
theorem interrupt_dispatch (hinit : isrHandlerInit code isrCommon (List.range idtCount) (mem, idt) = .done (mem', idt'))
    (n : BitVec 8) (m : Machine) (rsp0 : Word) (herror : error.isSome ↔ HasErrorCode n)
    (hcode : ∀ x, InBlock code (isrCodeSize * idtCount) x → m.mem x = mem' x)
    (hstack : ∀ x, InBlock (below (interruptBase m rsp0) 56) 56 x → ¬ InBlock code (isrCodeSize * idtCount) x) :
    (idt' n.toNat).type = 0x8E ∧ (idt' n.toNat).ist = 0 ∧ (idt' n.toNat).selector = kernelCs ∧
      ∃ k m', Machine.run (isrCode n) (m.interrupt rsp0 kernelCs (idt' n.toNat).handler error) = .done m' ∧
        fetches k (m.interrupt rsp0 kernelCs (idt' n.toNat).handler error) = some { m' with rip := isrCommon } := by
  have hn : n.toNat < idtCount := n.isLt
  have hall := (isrHandlerInit_writes hinit (fun i hi => List.mem_range.mp hi) List.nodup_range).1
  obtain ⟨hreach, hbytes, hgate⟩ := hall n.toNat (List.mem_range.mpr hn)
  have hnat : BitVec.ofNat 8 n.toNat = n := by
    rw [BitVec.ofNat_toNat, BitVec.setWidth_eq]
  have hsize : isrCodeSize = 9 := rfl
  have hcount : idtCount = 256 := rfl
  have hwords := length_interruptWords n herror
  let at' := code + BitVec.ofNat 64 (isrCodeSize * n.toNat)
  let ws := [m.ss.setWidth 64, m.reg .rsp, m.flags, m.cs.setWidth 64, m.rip] ++ error.toList
  have hws : ws.length = 5 + error.toList.length := List.length_append
  let base := interruptBase m rsp0
  have hbase : (m.set .rsp base).reg .rsp = base := Machine.set_reg_self ..
  have hpushed := Machine.pushWords_pushed (m.set .rsp base) ws (by omega)
  rw [HasIsrCode, hnat] at hbytes
  -- The code of one interrupt is part of all the code.
  have hpart : ∀ j < isrCodeSize, InBlock code (isrCodeSize * idtCount) (at' + BitVec.ofNat 64 j) := by
    intro j hj
    change InBlock code _ (code + BitVec.ofNat 64 (isrCodeSize * n.toNat) + BitVec.ofNat 64 j)
    rw [BitVec.add_assoc, ← BitVec.ofNat_add]
    exact inBlock_add code (by rw [hsize, hcount]; omega) (by rw [hsize, hcount]; decide)
  have hcodeAt : CodeAt at' (isrBytes n (isrOffset code isrCommon n.toNat)) (isrWords n).length
      (m.interrupt rsp0 kernelCs (idt' n.toNat).handler error) := by
    have hlength := length_isrBytes_le n (isrOffset code isrCommon n.toNat)
    refine ⟨hlength, fun j hj => ?_, fun x hx hin => ?_⟩
    · have hmem := hpushed.memory (at' + BitVec.ofNat 64 j) fun hin => by
        rw [hbase] at hin
        exact hstack _ (inBlock_below hin (by omega) (by omega) (by decide)) (hpart j (hj.trans_le hlength))
      refine hmem.trans ?_
      rw [Machine.set_mem, hcode _ (hpart j (hj.trans_le hlength))]
      exact hbytes j hj
    · obtain ⟨j, hj, rfl⟩ := hin.exists_add
      refine hstack _ ?_ (hpart j hj)
      have hrsp : (m.interrupt rsp0 kernelCs (idt' n.toNat).handler error).reg .rsp = below base (8 * ws.length) :=
        hpushed.rsp.trans (by rw [hbase])
      rw [hrsp, below_sub] at hx
      exact inBlock_below hx (by omega) (by omega) (by decide)
  have hrip : (m.interrupt rsp0 kernelCs (idt' n.toNat).handler error).rip = at' := by
    change (idt' n.toNat).handler = at'
    rw [hgate, setIdtEntry_handler]
  obtain ⟨k, hfetches⟩ := fetches_isrBytes hcodeAt hrip hreach
  rw [hgate] at *
  refine ⟨rfl, rfl, rfl, k, _, isrCode_pushes _ n, ?_⟩
  rw [hfetches]
  have htarget : at' + BitVec.ofNat 64 (if HasErrorCode n then 2 else 4) + 5 + isrOffset code isrCommon n.toNat =
      isrCommon := by
    rw [isrOffset, hnat]
    exact (BitVec.add_comm ..).trans (BitVec.sub_add_cancel ..)
  rw [htarget]

/-- A page fault gets to `isr_common`. -/
theorem interrupt_dispatch_pf : ∃ mem' idt' k m',
    isrHandlerInit 0x500000 0x400000 (List.range idtCount) (entered.mem, fun _ => setIdtEntry 0 0) = .done (mem', idt') ∧
    Machine.run (isrCode 0x0E) (Machine.interrupt { entered with mem := mem' } 0 kernelCs (idt' 0x0E).handler (some 2)) =
      .done m' ∧
    fetches k (Machine.interrupt { entered with mem := mem' } 0 kernelCs (idt' 0x0E).handler (some 2)) =
      some { m' with rip := 0x400000 } := by
  have hreaches : ∀ i ∈ List.range idtCount, Reaches 0x500000 0x400000 i := by decide +kernel
  obtain ⟨⟨mem', idt'⟩, hinit⟩ := isrHandlerInit_returns.mpr hreaches
  have hapart : Lib.Apart 0x500000 (isrCodeSize * idtCount) (below (interruptBase entered 0) 56) 56 :=
    ⟨by decide, by decide⟩
  have herror : (some (2 : Word)).isSome ↔ HasErrorCode 0x0E := by decide
  obtain ⟨-, -, -, k, m', hrun, hfetches⟩ := interrupt_dispatch hinit 0x0E { entered with mem := mem' } 0 herror
    (fun _ _ => rfl) fun x hx => hapart.not_inBlock hx
  exact ⟨mem', idt', k, m', hinit, hrun, hfetches⟩

end Result

end Attos.Asm
