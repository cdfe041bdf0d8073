import Attos.Lib.Bytes
import Attos.Lib.Computes

/-!
# Unwinding the stack

`unwind_once` looks for the function of an instruction in the exception directory of the image and
undoes, code by code, those operations of its prologue that were executed. A code takes one or two
slots of the array, and codes that are skipped take theirs too.

The codes of a prologue (`Describes`) are the encodings of its operations, the last one first. An
execution of the first `k` operations (`Runs`), with other instructions between and behind them,
takes the stack pointer down by the bytes that they allocate, and the codes up to the offset of
the instruction take it up again (`unwindLoop_computes`). So the result is right if the function
that is found is the one of the instruction, or allocates as much (`unwind_undoes`). At the first
instruction of a function, the function in front of it can be found instead (`unwind_adjacent`).
-/

namespace Attos.Pe

open Lib

/-! ## The exception directory -/

/-- `RUNTIME_FUNCTION` -/
structure RuntimeFunction : Type where
  /-- `BeginAddress` -/
  beginAddress : UInt32
  /-- `EndAddress` -/
  endAddress : UInt32
  /-- `UnwindInfoAddress` -/
  unwindInfoAddress : UInt32
  deriving DecidableEq

/-- `runtime_function_info` -/
def runtimeFunctionInfo (rfs : List RuntimeFunction) (functionRva : UInt32) : Option RuntimeFunction :=
  rfs.find? fun rf => rf.beginAddress ≤ functionRva ∧ functionRva ≤ rf.endAddress

/-- `UNWIND_CODE` -/
structure UnwindCode : Type where
  /-- `CodeOffset` -/
  codeOffset : ℕ
  /-- `UnwindOp` -/
  unwindOp : ℕ
  /-- `OpInfo` -/
  opInfo : ℕ

/-- The code in a slot. -/
def UnwindCode.read (slot : UInt16) : UnwindCode where
  codeOffset := slot.toNat % 256
  unwindOp := slot.toNat / 256 % 16
  opInfo := slot.toNat / 4096

/-- `UWOP_PUSH_NONVOL` -/
def Uwop.pushNonvol : ℕ := 0

/-- `UWOP_ALLOC_LARGE` -/
def Uwop.allocLarge : ℕ := 1

/-- `UWOP_ALLOC_SMALL` -/
def Uwop.allocSmall : ℕ := 2

/-- `UWOP_SET_FPREG` -/
def Uwop.setFpreg : ℕ := 3

/-- `UWOP_SAVE_NONVOL` -/
def Uwop.saveNonvol : ℕ := 4

/-- `UWOP_SAVE_NONVOL_FAR` -/
def Uwop.saveNonvolFar : ℕ := 5

/-- `UWOP_SAVE_XMM128` -/
def Uwop.saveXmm128 : ℕ := 8

/-- `UWOP_SAVE_XMM128_FAR` -/
def Uwop.saveXmm128Far : ℕ := 9

/-- `UWOP_PUSH_MACHFRAME` -/
def Uwop.pushMachframe : ℕ := 10

/-- `UNWIND_INFO`, with the slots of the codes behind it. -/
structure UnwindInfo : Type where
  /-- `Version` -/
  version : ℕ
  /-- `Flags` -/
  flags : ℕ
  /-- `CountOfCodes` -/
  countOfCodes : ℕ
  /-- `FrameRegister` -/
  frameRegister : ℕ
  /-- `FrameOffset` -/
  frameOffset : ℕ
  /-- `unwind_codes()` -/
  unwindCodes : ℕ → UInt16

/-- `UNWIND_INFO_VERSION` -/
def unwindInfoVersion : ℕ := 1

/-- `UNWIND_INFO_FLAG_CHAININFO` -/
def unwindInfoFlagChaininfo : ℕ := 4

/-- An image in memory. -/
structure Image : Type where
  /-- its address -/
  base : UInt64
  /-- `data_directory<RUNTIME_FUNCTION>()` -/
  functions : List RuntimeFunction
  /-- the `UNWIND_INFO` at an address in the image -/
  unwindInfo : UInt32 → UnwindInfo

/-! ## Unwinding -/

/-- The memory of the machine. -/
abbrev Memory : Type := UInt64 → UInt8

/-- The 64-bit number at `a`. -/
def read64 (mem : Memory) (a : UInt64) : UInt64 :=
  UInt64.ofNat (le64 (fun i => mem (a + UInt64.ofNat i)) 0)

/-- `unwind_context` -/
structure UnwindContext : Type where
  /-- the stack pointer -/
  rsp : UInt64
  /-- the instruction pointer -/
  rip : UInt64
  deriving DecidableEq

/-- `ret` -/
def UnwindContext.ret (mem : Memory) (context : UnwindContext) : UnwindContext :=
  ⟨context.rsp + 8, read64 mem context.rsp⟩

/-- `iret` -/
def UnwindContext.iret (mem : Memory) (context : UnwindContext) : UnwindContext :=
  ⟨read64 mem (context.rsp + 24), read64 mem context.rsp⟩

/-- The context without `bytes` bytes of its stack, unless the code is ignored. -/
def UnwindContext.release (ignore : Prop) [Decidable ignore] (bytes : ℕ) (context : UnwindContext) : UnwindContext :=
  if ignore then context else { context with rsp := context.rsp + UInt64.ofNat bytes }

/-- The loop of `unwind_once`, at the slot `i`. -/
def unwindLoop (mem : Memory) (ui : UnwindInfo) (offsetInFunction : ℕ) :
    ℕ → ℕ → UnwindContext → Outcome UnwindContext
  | 0, _, _ => .running
  | fuel + 1, i, context =>
    if i < ui.countOfCodes then
      let uc := UnwindCode.read (ui.unwindCodes i)
      if uc.unwindOp = Uwop.pushNonvol then
        unwindLoop mem ui offsetInFunction fuel (i + 1)
          (context.release (uc.codeOffset > offsetInFunction) 8)
      else if uc.unwindOp = Uwop.allocLarge then do
        Outcome.require (uc.opInfo = 0)
        let bytes := 8 * (ui.unwindCodes (i + 1)).toNat
        unwindLoop mem ui offsetInFunction fuel (i + 2)
          (context.release (uc.codeOffset > offsetInFunction) bytes)
      else if uc.unwindOp = Uwop.allocSmall then
        let bytes := 8 * (uc.opInfo + 1)
        unwindLoop mem ui offsetInFunction fuel (i + 1)
          (context.release (uc.codeOffset > offsetInFunction) bytes)
      else if uc.unwindOp = Uwop.setFpreg then
        unwindLoop mem ui offsetInFunction fuel (i + 1) context
      else if uc.unwindOp = Uwop.saveNonvol ∨ uc.unwindOp = Uwop.saveXmm128 then
        unwindLoop mem ui offsetInFunction fuel (i + 2) context
      else if uc.unwindOp = Uwop.saveNonvolFar ∨ uc.unwindOp = Uwop.saveXmm128Far then
        .abort
      else if uc.unwindOp = Uwop.pushMachframe then do
        Outcome.require (uc.opInfo = 0)
        if uc.codeOffset > offsetInFunction then
          unwindLoop mem ui offsetInFunction fuel (i + 1) context
        else
          .done (context.iret mem)
      else
        unwindLoop mem ui offsetInFunction fuel (i + 1) context
    else
      .done (context.ret mem)

/-- `unwind_once` -/
def unwindOnce (fuel : ℕ) (mem : Memory) (image : Image) (context : UnwindContext) : Outcome UnwindContext :=
  let functionRva := (context.rip - image.base).toUInt32
  match runtimeFunctionInfo image.functions functionRva with
  | none => .done (context.ret mem)
  | some rf => do
    let ui := image.unwindInfo rf.unwindInfoAddress
    Outcome.require (ui.version = unwindInfoVersion)
    Outcome.require (ui.flags &&& unwindInfoFlagChaininfo = 0)
    Outcome.require (ui.frameRegister ≠ 0 ∨ ui.frameOffset = 0)
    unwindLoop mem ui (functionRva - rf.beginAddress).toNat fuel 0 context

/-! ## Prologues -/

/-- An operation of a prologue. -/
inductive PrologueOp : Type where
  /-- push a register -/
  | push (reg : Fin 16)
  /-- allocate up to 128 bytes -/
  | allocSmall (info : Fin 16)
  /-- allocate up to 512 kB -/
  | allocLarge (size : UInt16)
  /-- save a register -/
  | save (reg : Fin 16) (offset : UInt16)
  /-- save an XMM register -/
  | saveXmm (reg : Fin 16) (offset : UInt16)

/-- The bytes that it allocates on the stack. -/
def PrologueOp.bytes : PrologueOp → ℕ
  | push _ => 8
  | allocSmall info => 8 * (info.val + 1)
  | allocLarge size => 8 * size.toNat
  | save _ _ => 0
  | saveXmm _ _ => 0

/-- An operation and the offset of the instruction behind it. -/
structure PrologueCode : Type where
  /-- the offset -/
  offset : UInt8
  /-- the operation -/
  op : PrologueOp

/-- The slot of a code. -/
def putCode (offset : UInt8) (unwindOp : ℕ) (opInfo : Fin 16) : UInt16 :=
  UInt16.ofNat (offset.toNat + 256 * (unwindOp + 16 * opInfo.val))

/-- The slots of a code. -/
def PrologueCode.encode (code : PrologueCode) : List UInt16 :=
  match code.op with
  | .push reg => [putCode code.offset Uwop.pushNonvol reg]
  | .allocSmall info => [putCode code.offset Uwop.allocSmall info]
  | .allocLarge size => [putCode code.offset Uwop.allocLarge 0, size]
  | .save reg offset => [putCode code.offset Uwop.saveNonvol reg, offset]
  | .saveXmm reg offset => [putCode code.offset Uwop.saveXmm128 reg, offset]

/-- The slots of a prologue: the last operation comes first. -/
def encodePrologue (prologue : List PrologueCode) : List UInt16 := prologue.reverse.flatMap PrologueCode.encode

/-- An unwind info without chaining and frame register that describes a prologue. -/
structure Describes (ui : UnwindInfo) (prologue : List PrologueCode) : Prop where
  /-- the version -/
  version : ui.version = unwindInfoVersion
  /-- no chaining -/
  flags : ui.flags &&& unwindInfoFlagChaininfo = 0
  /-- no frame register -/
  frame : ui.frameRegister = 0 ∧ ui.frameOffset = 0
  /-- the number of slots, which is a `uint8_t` -/
  count : ui.countOfCodes = (encodePrologue prologue).length ∧ ui.countOfCodes < 256
  /-- the slots -/
  codes : ∀ i (h : i < (encodePrologue prologue).length), ui.unwindCodes i = (encodePrologue prologue)[i]

/-- The unwind info of a prologue. -/
def UnwindInfo.of (prologue : List PrologueCode) : UnwindInfo where
  version := unwindInfoVersion
  flags := 0
  countOfCodes := (encodePrologue prologue).length
  frameRegister := 0
  frameOffset := 0
  unwindCodes i := (encodePrologue prologue).getD i 0

theorem UnwindInfo.of_describes {prologue : List PrologueCode} (h : (encodePrologue prologue).length < 256) :
    Describes (UnwindInfo.of prologue) prologue where
  version := rfl
  flags := Nat.zero_and _
  frame := ⟨rfl, rfl⟩
  count := ⟨rfl, h⟩
  codes _ hi := (List.getD_eq_getElem?_getD ..).trans (congrArg (Option.getD · 0) (List.getElem?_eq_getElem hi))

/-- The bytes that some operations allocate. -/
def allocated (ops : List PrologueCode) : ℕ := (ops.map fun code => code.op.bytes).sum

/-- The operations that are executed when the instruction at this offset is reached. -/
def executed (prologue : List PrologueCode) (offset : ℕ) : List PrologueCode :=
  prologue.filter fun code => code.offset.toNat ≤ offset

/-! ## Executions -/

/-- The stack pointer and the memory. -/
structure Machine : Type where
  /-- the stack pointer -/
  rsp : UInt64
  /-- the memory -/
  mem : Memory

/-- The return address on the stack stays as it is. -/
def KeepsSlot (entry : UInt64) (mem mem' : Memory) : Prop :=
  ∀ j < 8, mem' (entry + UInt64.ofNat j) = mem (entry + UInt64.ofNat j)

/-- An operation is executed. A push writes below the stack; a save does not write to the return
address. -/
inductive Exec (entry : UInt64) : PrologueOp → Machine → Machine → Prop where
  /-- a register is pushed -/
  | push {reg : Fin 16} {m : Machine} {mem : Memory} :
      (∀ a, (∀ j < 8, a ≠ m.rsp - 8 + UInt64.ofNat j) → mem a = m.mem a) →
      Exec entry (.push reg) m ⟨m.rsp - 8, mem⟩
  /-- some bytes are allocated -/
  | allocSmall {info : Fin 16} {m : Machine} :
      Exec entry (.allocSmall info) m ⟨m.rsp - UInt64.ofNat (8 * (info.val + 1)), m.mem⟩
  /-- many bytes are allocated -/
  | allocLarge {size : UInt16} {m : Machine} :
      Exec entry (.allocLarge size) m ⟨m.rsp - UInt64.ofNat (8 * size.toNat), m.mem⟩
  /-- a register is saved -/
  | save {reg : Fin 16} {offset : UInt16} {m : Machine} {mem : Memory} : KeepsSlot entry m.mem mem →
      Exec entry (.save reg offset) m ⟨m.rsp, mem⟩
  /-- an XMM register is saved -/
  | saveXmm {reg : Fin 16} {offset : UInt16} {m : Machine} {mem : Memory} : KeepsSlot entry m.mem mem →
      Exec entry (.saveXmm reg offset) m ⟨m.rsp, mem⟩

/-- Some operations are executed, with other instructions between and behind them, which leave the
stack pointer and the return address as they are. -/
inductive Runs (entry : UInt64) : List PrologueCode → Machine → Machine → Prop where
  /-- nothing is left to do -/
  | nil {m : Machine} : Runs entry [] m m
  /-- another instruction -/
  | other {ops : List PrologueCode} {m m' : Machine} {mem : Memory} : KeepsSlot entry m.mem mem →
      Runs entry ops ⟨m.rsp, mem⟩ m' → Runs entry ops m m'
  /-- the next operation -/
  | op {code : PrologueCode} {ops : List PrologueCode} {m m' m'' : Machine} : Exec entry code.op m m' →
      Runs entry ops m' m'' → Runs entry (code :: ops) m m''

section Executions

variable {entry : UInt64} {m m' : Machine} {op : PrologueOp} {ops : List PrologueCode} {mem mem' mem'' : Memory}

theorem KeepsSlot.trans (h : KeepsSlot entry mem mem') (h' : KeepsSlot entry mem' mem'') :
    KeepsSlot entry mem mem'' := fun j hj => (h' j hj).trans (h j hj)

@[simp] theorem allocated_cons (code : PrologueCode) (ops : List PrologueCode) :
    allocated (code :: ops) = code.op.bytes + allocated ops := by
  rw [allocated, List.map_cons, List.sum_cons, allocated]

/-- An operation takes the stack pointer down. -/
theorem Exec.rsp (h : Exec entry op m m') : m'.rsp = m.rsp - UInt64.ofNat op.bytes := by
  have hzero : m.rsp = m.rsp - UInt64.ofNat 0 := (UInt64.sub_zero _).symm
  cases h with
  | push => rfl
  | allocSmall => rfl
  | allocLarge => rfl
  | save => exact hzero
  | saveXmm => exact hzero

/-- The operations take it down together. -/
theorem Runs.rsp (h : Runs entry ops m m') : m'.rsp = m.rsp - UInt64.ofNat (allocated ops) := by
  induction h with
  | nil => exact (UInt64.sub_zero _).symm
  | other _ _ ih => exact ih
  | op hexec _ ih =>
    rw [ih, hexec.rsp, allocated_cons, UInt64.ofNat_add]
    grind

/-- A place below the return address is another one. -/
theorem slot_ne {d i j : ℕ} (hd : d + 16 ≤ 2 ^ 64) (hi : i < 8) (hj : j < 8) :
    entry + UInt64.ofNat i ≠ entry - UInt64.ofNat d - 8 + UInt64.ofNat j := by
  intro heq
  have hsum : UInt64.ofNat (d + 8 + i) = UInt64.ofNat j := by
    rw [UInt64.ofNat_add, UInt64.ofNat_add]
    grind
  have hnat := congrArg UInt64.toNat hsum
  rw [UInt64.toNat_ofNat', UInt64.toNat_ofNat'] at hnat
  omega

/-- An operation below the return address keeps it. -/
theorem Exec.keepsSlot (h : Exec entry op m m') {d : ℕ} (hrsp : m.rsp = entry - UInt64.ofNat d)
    (hd : d + 16 ≤ 2 ^ 64) : KeepsSlot entry m.mem m'.mem := by
  cases h with
  | push hwrite =>
    intro i hi
    refine hwrite _ fun j hj => ?_
    rw [hrsp]
    exact slot_ne hd hi hj
  | allocSmall => exact fun _ _ => rfl
  | allocLarge => exact fun _ _ => rfl
  | save hkeeps => exact hkeeps
  | saveXmm hkeeps => exact hkeeps

/-- **The return address is kept**, as long as the stack does not wrap around. -/
theorem Runs.keepsSlot (h : Runs entry ops m m') {d : ℕ} (hrsp : m.rsp = entry - UInt64.ofNat d)
    (hd : d + allocated ops + 16 ≤ 2 ^ 64) : KeepsSlot entry m.mem m'.mem := by
  induction h generalizing d with
  | nil => exact fun _ _ => rfl
  | other hkeeps _ ih => exact hkeeps.trans (ih hrsp hd)
  | @op code ops m m₁ m₂ hexec _ ih =>
    rw [allocated_cons] at hd
    have hnext : m₁.rsp = entry - UInt64.ofNat (d + code.op.bytes) := by
      rw [hexec.rsp, hrsp, UInt64.ofNat_add]
      grind
    exact (hexec.keepsSlot hrsp (by omega)).trans (ih hnext (by omega))

/-- The return address is read back. -/
theorem KeepsSlot.read64_eq (h : KeepsSlot entry mem mem') : read64 mem' entry = read64 mem entry := by
  rw [read64, read64, le64_congr]
  intro i hi
  rw [Nat.zero_add]
  exact h i hi

end Executions

/-! ## The loop -/

/-- A code is decoded as it was encoded. -/
theorem read_putCode (offset : UInt8) {unwindOp : ℕ} (hop : unwindOp < 16) (opInfo : Fin 16) :
    UnwindCode.read (putCode offset unwindOp opInfo) = ⟨offset.toNat, unwindOp, opInfo.val⟩ := by
  have hoffset := offset.toNat_lt
  have hinfo := opInfo.isLt
  have hslot : (putCode offset unwindOp opInfo).toNat = offset.toNat + 256 * (unwindOp + 16 * opInfo.val) := by
    rw [putCode, UInt16.toNat_ofNat']
    omega
  rw [UnwindCode.read, hslot, UnwindCode.mk.injEq]
  omega

section Loop

variable {mem : Memory} {ui : UnwindInfo} {offset : ℕ} {context : UnwindContext}

/-- The codes that are not executed release nothing. -/
theorem release_eq (codeOffset bytes : ℕ) : context.release (codeOffset > offset) bytes =
    ⟨context.rsp + UInt64.ofNat (if codeOffset ≤ offset then bytes else 0), context.rip⟩ := by
  rw [UnwindContext.release]
  split_ifs with h h' h'
  · exact absurd h' (Nat.not_le.mpr h)
  · exact congrArg (UnwindContext.mk · _) (UInt64.add_zero _).symm
  · rfl
  · exact absurd (Nat.le_of_not_lt h) h'

@[simp] theorem allocated_executed_cons (code : PrologueCode) (rest : List PrologueCode) :
    allocated (executed (code :: rest) offset) =
      (if code.offset.toNat ≤ offset then code.op.bytes else 0) + allocated (executed rest offset) := by
  rw [executed, List.filter_cons]
  split_ifs with h h' h'
  · rw [allocated_cons, executed]
  · exact absurd (of_decide_eq_true h) h'
  · exact absurd (decide_eq_true h') h
  · rw [Nat.zero_add, executed]

/-- The context when the loop is through with the codes `rest`. -/
def UnwindContext.after (mem : Memory) (offset : ℕ) (rest : List PrologueCode) (context : UnwindContext) :
    UnwindContext :=
  UnwindContext.ret mem ⟨context.rsp + UInt64.ofNat (allocated (executed rest offset)), context.rip⟩

/-- One code released what it allocated. -/
theorem after_cons (code : PrologueCode) (rest : List PrologueCode) :
    (context.release (code.offset.toNat > offset) code.op.bytes).after mem offset rest =
      context.after mem offset (code :: rest) := by
  rw [release_eq, UnwindContext.after, UnwindContext.after, allocated_executed_cons, UInt64.ofNat_add,
    ← UInt64.add_assoc]

/-- Nothing is released. -/
theorem release_zero (codeOffset : ℕ) : context.release (codeOffset > offset) 0 = context := by
  rw [release_eq, ite_self]
  exact congrArg (UnwindContext.mk · _) (UInt64.add_zero _)

/-- **One pass** of the loop takes all slots of a code and releases what its operation allocated. -/
theorem unwindLoop_code {code : PrologueCode} {i : ℕ} (hi : i < ui.countOfCodes)
    (hcodes : ∀ j (h : j < code.encode.length), ui.unwindCodes (i + j) = code.encode[j]) (fuel : ℕ) :
    unwindLoop mem ui offset (fuel + 1) i context =
      unwindLoop mem ui offset fuel (i + code.encode.length)
        (context.release (code.offset.toNat > offset) code.op.bytes) := by
  obtain ⟨codeOffset, op⟩ := code
  rw [unwindLoop, if_pos hi]
  cases op with
  | push reg =>
    have hslot : ui.unwindCodes i = putCode codeOffset Uwop.pushNonvol reg := hcodes 0 Nat.one_pos
    rw [hslot, read_putCode _ (by decide)]
    rfl
  | allocSmall info =>
    have hslot : ui.unwindCodes i = putCode codeOffset Uwop.allocSmall info := hcodes 0 Nat.one_pos
    rw [hslot, read_putCode _ (by decide)]
    rfl
  | allocLarge size =>
    have hslot : ui.unwindCodes i = putCode codeOffset Uwop.allocLarge 0 := hcodes 0 Nat.two_pos
    have hsize : ui.unwindCodes (i + 1) = size := hcodes 1 Nat.one_lt_two
    rw [hslot, read_putCode _ (by decide), hsize]
    rfl
  | save reg saved =>
    have hslot : ui.unwindCodes i = putCode codeOffset Uwop.saveNonvol reg := hcodes 0 Nat.two_pos
    rw [hslot, read_putCode _ (by decide), PrologueOp.bytes, release_zero]
    rfl
  | saveXmm reg saved =>
    have hslot : ui.unwindCodes i = putCode codeOffset Uwop.saveXmm128 reg := hcodes 0 Nat.two_pos
    rw [hslot, read_putCode _ (by decide), PrologueOp.bytes, release_zero]
    rfl

theorem PrologueCode.length_encode_pos (code : PrologueCode) : 0 < code.encode.length := by
  obtain ⟨codeOffset, op⟩ := code
  cases op <;> exact Nat.succ_pos _

/-- **The loop** over the codes `rest` of a prologue releases what their executed operations
allocated. -/
theorem unwindLoop_computes {rest : List PrologueCode} {i : ℕ}
    (hcount : ui.countOfCodes = i + (rest.flatMap PrologueCode.encode).length)
    (hcodes : ∀ j (h : j < (rest.flatMap PrologueCode.encode).length),
      ui.unwindCodes (i + j) = (rest.flatMap PrologueCode.encode)[j]) :
    Computes (fun fuel => unwindLoop mem ui offset fuel i context) (context.after mem offset rest) := by
  induction rest generalizing i context with
  | nil =>
    have hend : ¬ i < ui.countOfCodes := by
      rw [hcount]
      simp
    refine .step rfl (fun fuel => ?_) (.of_done fun _ => rfl)
    rw [unwindLoop, if_neg hend, UnwindContext.after]
    exact congrArg (fun rsp => Outcome.done (UnwindContext.ret mem ⟨rsp, context.rip⟩)) (UInt64.add_zero _).symm
  | cons code rest ih =>
    rw [List.flatMap_cons, List.length_append] at hcount
    have hpos := code.length_encode_pos
    have hlt : i < ui.countOfCodes := by omega
    have hfirst : ∀ j (h : j < code.encode.length), ui.unwindCodes (i + j) = code.encode[j] := by
      intro j h
      rw [hcodes j (by rw [List.flatMap_cons, List.length_append]; omega)]
      exact List.getElem_append_left h
    have hrest : ∀ j (h : j < (rest.flatMap PrologueCode.encode).length),
        ui.unwindCodes (i + code.encode.length + j) = (rest.flatMap PrologueCode.encode)[j] := by
      intro j h
      rw [Nat.add_assoc, hcodes _ (by rw [List.flatMap_cons, List.length_append]; omega)]
      simp only [List.flatMap_cons, List.getElem_append_right' code.encode h, Nat.add_comm]
    rw [← after_cons]
    exact .step rfl (unwindLoop_code hlt hfirst) (ih (by omega) hrest)

end Loop

/-! ## The size of a prologue -/

section Sizes

variable {ui : UnwindInfo} {prologue : List PrologueCode} {offset k : ℕ}

/-- A code has as many slots as its operation needs to say how much it allocates. -/
theorem bytes_le (code : PrologueCode) : code.op.bytes ≤ 2 ^ 19 * code.encode.length := by
  obtain ⟨codeOffset, op⟩ := code
  cases op with
  | push => change 8 ≤ 2 ^ 19 * 1; omega
  | allocSmall info => have hinfo := info.isLt; change 8 * (info.val + 1) ≤ 2 ^ 19 * 1; omega
  | allocLarge size => have hsize := size.toNat_lt; change 8 * size.toNat ≤ 2 ^ 19 * 2; omega
  | save => exact Nat.zero_le _
  | saveXmm => exact Nat.zero_le _

theorem allocated_le (ops : List PrologueCode) : allocated ops ≤ 2 ^ 19 * (ops.flatMap PrologueCode.encode).length := by
  induction ops with
  | nil => exact Nat.zero_le _
  | cons code ops ih =>
    have hcode := bytes_le code
    rw [allocated_cons, List.flatMap_cons, List.length_append]
    omega

theorem allocated_reverse (ops : List PrologueCode) : allocated ops.reverse = allocated ops := by
  rw [allocated, List.map_reverse, List.sum_reverse, allocated]

theorem executed_reverse (ops : List PrologueCode) : executed ops.reverse offset = (executed ops offset).reverse :=
  List.filter_reverse ..

/-- A part of a prologue allocates no more than all of it. -/
theorem allocated_mono {part ops : List PrologueCode} (h : part.Sublist ops) : allocated part ≤ allocated ops :=
  (h.map _).sum_le_sum fun _ _ => Nat.zero_le _

/-- A prologue with a byte for the number of its slots allocates less than 4 GB. -/
theorem Describes.allocated_lt (h : Describes ui prologue) {part : List PrologueCode} (hpart : part.Sublist prologue) :
    allocated part < 2 ^ 32 := by
  have hall := allocated_le prologue.reverse
  rw [allocated_reverse, ← encodePrologue, ← h.count.1] at hall
  have hcount := h.count.2
  have hmono := allocated_mono hpart
  omega

/-- The operations that are executed are the first ones. -/
theorem executed_eq_take (hexecuted : ∀ code ∈ prologue.take k, code.offset.toNat ≤ offset)
    (hahead : ∀ code ∈ prologue.drop k, offset < code.offset.toNat) :
    executed prologue offset = prologue.take k := by
  have htake : executed (prologue.take k) offset = prologue.take k :=
    List.filter_eq_self.mpr fun code hcode => decide_eq_true (hexecuted code hcode)
  have hdrop : executed (prologue.drop k) offset = [] :=
    List.filter_eq_nil_iff.mpr fun code hcode h => absurd (of_decide_eq_true h) (Nat.not_le.mpr (hahead code hcode))
  calc executed prologue offset = executed (prologue.take k ++ prologue.drop k) offset := by rw [List.take_append_drop]
    _ = prologue.take k := by
      rw [executed, List.filter_append, ← executed, ← executed, htake, hdrop, List.append_nil]

end Sizes

/-! ## The result -/

section Result

variable {image : Image} {rva : UInt32} {found rf : RuntimeFunction} {prologue prologue' : List PrologueCode} {k : ℕ}
  {mem : Memory} {rsp entry : UInt64} {m m' : Machine}

/-- A function is found for every instruction of one. -/
theorem exists_runtimeFunctionInfo {rfs : List RuntimeFunction} (hmem : rf ∈ rfs)
    (hrange : rf.beginAddress ≤ rva ∧ rva ≤ rf.endAddress) : ∃ found, runtimeFunctionInfo rfs rva = some found :=
  Option.isSome_iff_exists.mp (List.find?_isSome.mpr ⟨rf, hmem, decide_eq_true hrange⟩)

/-- **The result** with the function that is found. -/
theorem unwindOnce_computes (hfound : runtimeFunctionInfo image.functions rva = some found)
    (h : Describes (image.unwindInfo found.unwindInfoAddress) prologue) :
    Computes (fun fuel => unwindOnce fuel mem image ⟨rsp, image.base + rva.toUInt64⟩)
      (UnwindContext.ret mem ⟨rsp + UInt64.ofNat (allocated (executed prologue (rva - found.beginAddress).toNat)),
        image.base + rva.toUInt64⟩) := by
  have hrva : (image.base + rva.toUInt64 - image.base).toUInt32 = rva := by
    rw [UInt64.add_comm, UInt64.add_sub_cancel, UInt32.toUInt32_toUInt64]
  have hloop : Computes (fun fuel => unwindLoop mem (image.unwindInfo found.unwindInfoAddress)
      (rva - found.beginAddress).toNat fuel 0 ⟨rsp, image.base + rva.toUInt64⟩)
      (UnwindContext.after mem (rva - found.beginAddress).toNat prologue.reverse
        ⟨rsp, image.base + rva.toUInt64⟩) :=
    unwindLoop_computes (h.count.1.trans (Nat.zero_add _).symm)
      fun j hj => (congrArg _ (Nat.zero_add j)).trans (h.codes j hj)
  rw [UnwindContext.after, executed_reverse, allocated_reverse] at hloop
  have honce : ∀ fuel, unwindOnce fuel mem image ⟨rsp, image.base + rva.toUInt64⟩ =
      unwindLoop mem (image.unwindInfo found.unwindInfoAddress) (rva - found.beginAddress).toNat fuel 0
        ⟨rsp, image.base + rva.toUInt64⟩ := by
    intro fuel
    rw [unwindOnce]
    simp only [hrva, hfound, h.version, h.flags, h.frame.2, Outcome.require_true, Outcome.done_bind, or_true]
  exact (funext honce) ▸ hloop

/-- The stack pointer is back where it was if as much is released as was allocated. -/
theorem ret_eq_iff {allocated released : ℕ} (hallocated : allocated < 2 ^ 32) (hreleased : released < 2 ^ 32)
    (hmem : read64 mem entry = read64 m.mem entry) {rip : UInt64} :
    UnwindContext.ret mem ⟨entry - UInt64.ofNat allocated + UInt64.ofNat released, rip⟩ =
      ⟨entry + 8, read64 m.mem entry⟩ ↔ released = allocated := by
  constructor
  · intro h
    have hrsp : entry - UInt64.ofNat allocated + UInt64.ofNat released + 8 = entry + 8 := congrArg UnwindContext.rsp h
    have heq : UInt64.ofNat released = UInt64.ofNat allocated := by grind
    have hnat := congrArg UInt64.toNat heq
    rw [UInt64.toNat_ofNat', UInt64.toNat_ofNat'] at hnat
    omega
  · rintro rfl
    rw [UInt64.sub_add_cancel, UnwindContext.ret, hmem]

/-- The unwound context is the one of the caller if the found function releases what was allocated. -/
theorem unwindOnce_found (hfound : runtimeFunctionInfo image.functions rva = some found)
    (h : Describes (image.unwindInfo found.unwindInfoAddress) prologue')
    (hprologue : Describes (image.unwindInfo rf.unwindInfoAddress) prologue)
    (hruns : Runs m.rsp (prologue.take k) m m') :
    Computes (fun fuel => unwindOnce fuel m'.mem image ⟨m'.rsp, image.base + rva.toUInt64⟩)
        ⟨m.rsp + 8, read64 m.mem m.rsp⟩ ↔
      allocated (executed prologue' (rva - found.beginAddress).toNat) = allocated (prologue.take k) := by
  have hallocated := hprologue.allocated_lt (List.take_sublist k prologue)
  have hreleased : allocated (executed prologue' (rva - found.beginAddress).toNat) < 2 ^ 32 :=
    h.allocated_lt List.filter_sublist
  have hentry : m.rsp = m.rsp - UInt64.ofNat 0 := (UInt64.sub_zero _).symm
  have hkeeps := hruns.keepsSlot hentry (by omega)
  have hunwound := @unwindOnce_computes image rva found prologue' m'.mem m'.rsp hfound h
  rw [hruns.rsp] at hunwound ⊢
  rw [← ret_eq_iff hallocated hreleased hkeeps.read64_eq]
  exact ⟨fun hcaller => hunwound.unique hcaller, fun heq => heq ▸ hunwound⟩

/-- **Unwinding undoes the prologue**: if the first `k` operations of the prologue of a function are
executed at an instruction of it, then `unwind_once` yields the return address and the stack pointer
behind it if the function is the one that is found. If another one is found, this is so exactly if
its codes release as much. -/
theorem unwind_undoes (hmem : rf ∈ image.functions)
    (hprologue : Describes (image.unwindInfo rf.unwindInfoAddress) prologue)
    (hrange : rf.beginAddress ≤ rva ∧ rva < rf.endAddress)
    (hexecuted : ∀ code ∈ prologue.take k, code.offset.toNat ≤ (rva - rf.beginAddress).toNat)
    (hahead : ∀ code ∈ prologue.drop k, (rva - rf.beginAddress).toNat < code.offset.toNat)
    (hruns : Runs m.rsp (prologue.take k) m m') :
    ∃ found, runtimeFunctionInfo image.functions rva = some found ∧
      (found = rf → Computes (fun fuel => unwindOnce fuel m'.mem image ⟨m'.rsp, image.base + rva.toUInt64⟩)
        ⟨m.rsp + 8, read64 m.mem m.rsp⟩) ∧
      ∀ prologue', Describes (image.unwindInfo found.unwindInfoAddress) prologue' →
        (Computes (fun fuel => unwindOnce fuel m'.mem image ⟨m'.rsp, image.base + rva.toUInt64⟩)
            ⟨m.rsp + 8, read64 m.mem m.rsp⟩ ↔
          allocated (executed prologue' (rva - found.beginAddress).toNat) = allocated (prologue.take k)) := by
  obtain ⟨found, hfound⟩ := exists_runtimeFunctionInfo hmem ⟨hrange.1, UInt32.le_of_lt hrange.2⟩
  refine ⟨found, hfound, ?_, fun prologue' h => unwindOnce_found hfound h hprologue hruns⟩
  rintro rfl
  apply (unwindOnce_found hfound hprologue hprologue hruns).mpr
  rw [executed_eq_take hexecuted hahead]

end Result

/-- push a register and allocate 32 bytes -/
def pushAndAlloc : List PrologueCode := [⟨1, .push 3⟩, ⟨5, .allocSmall 3⟩]

/-- A function with this prologue. -/
def firstFunction : RuntimeFunction := ⟨0x1000, 0x1010, 0x2000⟩

/-- The function right behind it. -/
def secondFunction : RuntimeFunction := ⟨0x1010, 0x1020, 0x2000⟩

/-- An image with two functions. -/
def twoFunctions : Image where
  base := 0x400000
  functions := [firstFunction, secondFunction]
  unwindInfo _ := UnwindInfo.of pushAndAlloc

/-- The machine when one of them is called. -/
def called : Machine := ⟨0x8000, fun a => a.toUInt8⟩

theorem describes_pushAndAlloc : Describes (UnwindInfo.of pushAndAlloc) pushAndAlloc :=
  UnwindInfo.of_describes (by decide)

/-- The first function is unwound behind its prologue. -/
theorem unwind_undoes_first :
    Computes (fun fuel => unwindOnce fuel called.mem twoFunctions ⟨0x7fd8, 0x401005⟩)
      ⟨0x8008, read64 called.mem 0x8000⟩ := by
  have hruns : Runs called.rsp (pushAndAlloc.take 2) called ⟨0x7fd8, called.mem⟩ :=
    .op (.push fun _ _ => rfl) (.op .allocSmall .nil)
  have hmem : firstFunction ∈ twoFunctions.functions := List.mem_cons_self
  have hrange : firstFunction.beginAddress ≤ 0x1005 ∧ (0x1005 : UInt32) < firstFunction.endAddress := by decide
  obtain ⟨found, hfound, hown, -⟩ :=
    unwind_undoes hmem describes_pushAndAlloc hrange (by decide) (by decide) hruns
  exact hown (Option.some.inj (hfound.symm.trans (by decide)))

/-- At the first instruction of the second function, nothing is allocated, and the codes of the
first one are undone. -/
theorem unwind_adjacent : secondFunction ∈ twoFunctions.functions ∧
    Describes (twoFunctions.unwindInfo secondFunction.unwindInfoAddress) pushAndAlloc ∧
    (∀ code ∈ pushAndAlloc, ((0x1010 : UInt32) - secondFunction.beginAddress).toNat < code.offset.toNat) ∧
    ¬ Computes (fun fuel => unwindOnce fuel called.mem twoFunctions ⟨called.rsp, 0x401010⟩)
      ⟨called.rsp + 8, read64 called.mem called.rsp⟩ := by
  refine ⟨by decide, describes_pushAndAlloc, by decide, fun hcaller => ?_⟩
  have hruns : Runs called.rsp (pushAndAlloc.take 0) called called := .nil
  have hfound : runtimeFunctionInfo twoFunctions.functions 0x1010 = some firstFunction := by decide
  have hprologue : Describes (twoFunctions.unwindInfo secondFunction.unwindInfoAddress) pushAndAlloc :=
    describes_pushAndAlloc
  have hreleased := (unwindOnce_found hfound describes_pushAndAlloc hprologue hruns).mp hcaller
  exact absurd hreleased (by decide)

end Attos.Pe
