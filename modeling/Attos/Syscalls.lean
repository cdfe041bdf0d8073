import Attos.UserProcess

/-!
# System calls for processes

The system calls of `kernel/kernel.cpp` that create, start, end and destroy
processes, on the processes that exist, the list of them and the current one.

Objects that a process has open are destroyed through their handles, so
destroying a process destroys the objects it has open, and these can be
processes in turn. The address of a new process and the image to start are
arguments of the calls here: they come from the heap and from user memory.
-/

namespace Attos

open Lib

/-! ## Freeing memory -/

namespace KernelMemoryManager

/-- `free_physical`. The heap's check that the block is in its region passes for
memory that it handed out. -/
def freePhysical (k : KernelMemoryManager) (b : Block) : KernelMemoryManager :=
  { k with physicalPages_ := freeInsert b k.physicalPages_ }

/-- `~physical_allocation` -/
def destroyAllocation (k : KernelMemoryManager) (b : Block) : KernelMemoryManager :=
  if b.size ≠ 0 then k.freePhysical b else k

/-- `free_table` -/
def freeTable (k : KernelMemoryManager) (table : Word) : Outcome KernelMemoryManager := do
  Outcome.require (table &&& 0xfff = 0)
  pure (k.freePhysical ⟨table.toNat, 4096⟩)

/-- The nested loops of `~memory_manager_base`: free a table and the tables below
it. Only the root table has no large pages. -/
def freeTables : ℕ → KernelMemoryManager → Word → Outcome KernelMemoryManager
  | 0, k, table => k.freeTable table
  | n + 1, k, table => do
    let k ← (List.range 512).foldlM (fun k i =>
      let entry := k.mem table i
      if ¬ Present entry ∨ n ≠ 2 ∧ Large entry then pure k
      else freeTables n k (tableEntry entry)) k
    k.freeTable table

/-- `~default_memory_manager`, and `~memory_manager_base` without the page with
the mappings. -/
def destroyMemoryManager (k : KernelMemoryManager) (mm : MemoryManager) :
    Outcome KernelMemoryManager := do
  let kernelPml4 := DefaultMemoryManager.kernelPml4
  Outcome.require (k.mem mm.pml4_ kernelPml4 = k.mem k.pml4_ kernelPml4)
  freeTables 3 { k with mem := RadixTable.write k.mem mm.pml4_ kernelPml4 0 } mm.pml4_

/-- `unmap_memory` of a `default_memory_manager` -/
def unmapMemory (k : KernelMemoryManager) (mm : MemoryManager) (fuel : ℕ) (virt length : Word) :
    Outcome (MemoryManager × KernelMemoryManager) := do
  let mm ← (k.enter mm).unmapMemory fuel virt length
  pure (mm, k.leave mm)

end KernelMemoryManager

namespace MemMapHelper

/-- `mapped_base` -/
def mappedBase (phys : Word) : Word := phys &&& ~~~0xfff

/-- `mapped_length` -/
def mappedLength (phys length : Word) : Word :=
  BitVec.ofNat 64 (roundUp (phys + length).toNat) - mappedBase phys

end MemMapHelper

/-! ## Objects of a process -/

/-- `max_objects` -/
def maxObjects : ℕ := 16

namespace UserProcess

/-- `object_open` -/
def objectOpen (proc : UserProcess) (obj : KernelObject) : Outcome (Word × UserProcess) :=
  match (List.range maxObjects).find? fun i => (proc.objects_ i).isNone with
  | none => .abort
  | some i => .done (BitVec.ofNat 64 (i + 1),
      { proc with objects_ := Function.update proc.objects_ i (some obj) })

/-- `handle_valid` -/
def HandleValid (proc : UserProcess) (handle : Word) : Prop :=
  1 ≤ handle.toNat ∧ handle.toNat ≤ maxObjects ∧ (proc.objects_ (handle.toNat - 1)).isSome

instance (proc : UserProcess) (handle : Word) : Decidable (proc.HandleValid handle) :=
  inferInstanceAs (Decidable (_ ∧ _))

/-- `object_get` -/
def objectGet (proc : UserProcess) (handle : Word) : Outcome KernelObject := do
  Outcome.require (proc.HandleValid handle)
  Outcome.requireSome (proc.objects_ (handle.toNat - 1))

end UserProcess

/-- `get_protocol` for `kernel_object_protocol_number::process` -/
def KernelObject.getProcess : KernelObject → Outcome ℕ
  | .process p => .done p
  | _ => .abort

/-! ## The system -/

/-- The processes and the memory they use. -/
structure Kernel : Type where
  /-- memory -/
  memory : KernelMemoryManager
  /-- the processes that exist, by address -/
  processes : ℕ → Option UserProcess
  /-- `current_process_` -/
  currentProcess_ : Option ℕ
  /-- `first_process_` -/
  firstProcess_ : Option ℕ
  /-- whether `ko_ethdev::dev_` is set -/
  hasDev : Bool
  /-- `hack_dsdt_phys` -/
  hackDsdtPhys : Word
  /-- `hack_dsdt_len` -/
  hackDsdtLen : BitVec 32

/-- Where the kernel goes on. -/
inductive Control : Type where
  /-- in the current process, with these registers -/
  | user : Registers → Control
  /-- `restore_original_context` -/
  | original : Control

namespace Kernel

/-- The process at an address. -/
def get (s : Kernel) (p : ℕ) : Outcome UserProcess := Outcome.requireSome (s.processes p)

/-- Change the process at an address. -/
def set (s : Kernel) (p : ℕ) (proc : UserProcess) : Kernel :=
  { s with processes := Function.update s.processes p (some proc) }

/-- `current` -/
def current (s : Kernel) : Outcome ℕ := Outcome.requireSome s.currentProcess_

/-- `running` -/
def running (s : Kernel) (p : ℕ) : Bool :=
  match s.processes p with
  | none => false
  | some proc => decide (proc.state_ = .running)

/-- The loop of `all_processes`, from a process on. -/
def listFrom (s : Kernel) : ℕ → Option ℕ → Outcome (List ℕ)
  | 0, _ => .running
  | _ + 1, none => .done []
  | fuel + 1, some p => do
    let proc ← s.get p
    let ps ← listFrom s fuel proc.next_
    pure (p :: ps)

/-- `all_processes` -/
def allProcesses (s : Kernel) (fuel : ℕ) : Outcome (List ℕ) := s.listFrom fuel s.firstProcess_

/-! ## Life of a process -/

/-- The constructor of `user_process`, at an address. -/
def newProcess (s : Kernel) (p : ℕ) : Outcome Kernel := do
  let (memoryMappingsPhys, mm, k) ← s.memory.createDefaultMemoryManager
  pure { s.set p (UserProcess.new memoryMappingsPhys mm s.firstProcess_) with
    memory := k
    firstProcess_ := some p }

/-- `start` -/
def start (s : Kernel) (p : ℕ) : Outcome Kernel := do
  let proc ← s.get p
  Outcome.require (proc.state_ = .created)
  pure (s.set p { proc with state_ := .running })

/-- `switch_from` -/
def switchFrom (s : Kernel) (p : ℕ) : Outcome Kernel := do
  let proc ← s.get p
  Outcome.require (proc.state_ = .running)
  Outcome.require (s.currentProcess_ = some p)
  pure { s with currentProcess_ := none }

/-- `set_as_current` -/
def setAsCurrent (s : Kernel) (p : ℕ) : Outcome Kernel := do
  let proc ← s.get p
  Outcome.require (proc.state_ = .running)
  pure { s with currentProcess_ := some p }

/-- `switch_to`: the registers to go on with. -/
def switchTo (s : Kernel) (p : ℕ) : Outcome (Registers × Kernel) := do
  let proc ← s.get p
  Outcome.require (proc.state_ = .running)
  let s ← s.setAsCurrent p
  pure (proc.context_, s)

/-- `user_process::exit` -/
def exitProcess (s : Kernel) (p : ℕ) (exitCode : Word) : Outcome Kernel := do
  let proc ← s.get p
  Outcome.require (proc.state_ = .running)
  pure (s.set p { proc with exitCode_ := exitCode, state_ := .exited })

/-- `alloc_and_map_user_exe` -/
def load (s : Kernel) (fuel : ℕ) (p : ℕ) (image : Image) : Outcome Kernel := do
  let proc ← s.get p
  let (proc, k) ← s.memory.allocAndMapUserExe proc fuel image
  pure { s.set p proc with memory := k }

/-! ## Destroying objects -/

/-- `~mem_map_helper` -/
def destroyMemMap (s : Kernel) (fuel : ℕ) (w : MemMapHelper) : Outcome Kernel :=
  if w.length_ ≠ 0 then do
    let proc ← s.get w.mm_
    let (mm, k) ← s.memory.unmapMemory proc.mm_ fuel w.mappedVirt_
      (MemMapHelper.mappedLength w.phys_ w.length_)
    pure { s.set w.mm_ { proc with mm_ := mm } with memory := k }
  else
    pure s

/-- The loop of `~user_process` for the process before it in the list. -/
def findPrevious (s : Kernel) (p : ℕ) : ℕ → Option ℕ → Outcome ℕ
  | 0, _ => .running
  | fuel + 1, it => do
    let q ← Outcome.requireSome it
    let proc ← s.get q
    if proc.next_ = some p then pure q else findPrevious s p fuel proc.next_

/-- Take a process out of the list. -/
def unlink (s : Kernel) (fuel : ℕ) (p : ℕ) : Outcome Kernel := do
  let proc ← s.get p
  if s.firstProcess_ = some p then
    pure { s with firstProcess_ := proc.next_ }
  else do
    let q ← s.findPrevious p fuel s.firstProcess_
    let prev ← s.get q
    pure (s.set q { prev with next_ := proc.next_ })

/-- The members of a process are destroyed. -/
def release (s : Kernel) (p : ℕ) : Outcome Kernel := do
  let proc ← s.get p
  let k := proc.allocations_.reverse.foldl KernelMemoryManager.destroyAllocation s.memory
  let k ← k.destroyMemoryManager proc.mm_
  pure { s with
    memory := k.destroyAllocation proc.memoryMappingsPhys_
    processes := Function.update s.processes p none }

/-- `reset` of an object of a process. -/
def resetObject (destroy : Kernel → KernelObject → Outcome Kernel) (s : Kernel) (p i : ℕ) :
    Outcome Kernel := do
  let proc ← s.get p
  match proc.objects_ i with
  | none => pure s
  | some obj => do
    let s ← destroy s obj
    let proc ← s.get p
    pure (s.set p { proc with objects_ := Function.update proc.objects_ i none })

/-- The first objects of a process are reset, one by one. -/
def resetObjects (destroy : Kernel → KernelObject → Outcome Kernel) (p : ℕ) :
    ℕ → Kernel → Outcome Kernel
  | 0, s => .done s
  | n + 1, s => do
    let s ← resetObjects destroy p n s
    resetObject destroy s p n

/-- What `~user_process` requires of a process. -/
def Destroyable (s : Kernel) (p : ℕ) : Prop :=
  (∃ proc, s.processes p = some proc ∧ (proc.state_ = .created ∨ proc.state_ = .exited)) ∧
    s.currentProcess_ ≠ some p

/-- The destructor of an object. -/
def destroyObject : ℕ → Kernel → KernelObject → Outcome Kernel
  | 0, _, _ => .running
  | _ + 1, s, .ethdev => .done s
  | _ + 1, s, .keyboard => .done s
  | fuel + 1, s, .memMap w => s.destroyMemMap fuel w
  | fuel + 1, s, .process p => do
    let proc ← s.get p
    Outcome.require (proc.state_ = .created ∨ proc.state_ = .exited)
    Outcome.require (s.currentProcess_ ≠ some p)
    let s ← resetObjects (destroyObject fuel) p maxObjects s
    let s ← s.unlink fuel p
    s.release p

/-! ## The handlers -/

/-- `object_open` of a process of the system. -/
def objectOpen (s : Kernel) (p : ℕ) (obj : KernelObject) : Outcome (Word × Kernel) := do
  let proc ← s.get p
  let (handle, proc) ← proc.objectOpen obj
  pure (handle, s.set p proc)

/-- The constructor of `mem_map_helper` on the manager of a process. -/
def newMemMap (s : Kernel) (fuel : ℕ) (p : ℕ) (phys length : Word) (type : MemoryType) :
    Outcome (MemMapHelper × Kernel) := do
  let proc ← s.get p
  let (virt, mm, k) ← s.memory.mapMemory proc.mm_ fuel MemoryManager.mapAllocVirt
    (MemMapHelper.mappedLength phys length) type (MemMapHelper.mappedBase phys)
  pure (⟨p, phys, length, type, virt⟩, { s.set p { proc with mm_ := mm } with memory := k })

/-- `syscall_number::create`, where a new process gets the address `a`. -/
def create (s : Kernel) (fuel : ℕ) (a : ℕ) (name : String) : Outcome (Word × Kernel) := do
  let p ← s.current
  if name = "ethdev" then do
    Outcome.require (s.hasDev = true)
    s.objectOpen p .ethdev
  else if name = "keyboard" then
    s.objectOpen p .keyboard
  else if name = "process" then do
    let s ← s.newProcess a
    s.objectOpen p (.process a)
  else if name = "hack-acpi-dsdt" then do
    Outcome.require (s.hackDsdtPhys ≠ 0 ∧ s.hackDsdtLen ≠ 0)
    let (w, s) ← s.newMemMap fuel p s.hackDsdtPhys (s.hackDsdtLen.setWidth 64)
      (MemoryType.read ||| MemoryType.user)
    s.objectOpen p (.memMap w)
  else
    .abort

/-- `syscall_number::destroy` -/
def destroy (s : Kernel) (fuel : ℕ) (handle : Word) : Outcome Kernel := do
  let p ← s.current
  let proc ← s.get p
  Outcome.require (proc.HandleValid handle)
  resetObject (destroyObject fuel) s p (handle.toNat - 1)

/-- `syscall_number::start_exe` -/
def startExe (s : Kernel) (fuel : ℕ) (regs : Registers) (image : Image) :
    Outcome (Registers × Kernel) := do
  let p ← s.current
  let proc ← s.get p
  let obj ← proc.objectGet regs.rdx
  let q ← obj.getProcess
  let s ← s.load fuel q image
  -- the registers of the current process
  let proc ← s.get p
  Outcome.require (proc.state_ ≠ .exited)
  let s ← (s.set p { proc with context_ := regs }).switchFrom p
  -- the new one
  let s ← s.start q
  s.switchTo q

/-- `syscall_number::exit` -/
def exit (s : Kernel) (fuel : ℕ) (exitCode : Word) : Outcome (Control × Kernel) := do
  let last ← s.current
  let s ← s.switchFrom last
  let s ← s.exitProcess last exitCode
  let all ← s.allProcesses fuel
  match all.find? s.running with
  | none => pure (.original, s)
  | some next => do
    let (regs, s) ← s.switchTo next
    pure (.user regs, s)

/-- `syscall_number::process_exit_code` -/
def processExitCode (s : Kernel) (handle : Word) : Outcome Word := do
  let p ← s.current
  let proc ← s.get p
  let obj ← proc.objectGet handle
  let q ← obj.getProcess
  let child ← s.get q
  Outcome.require (child.state_ = .exited)
  pure child.exitCode_

/-- The calls of `syscall_number` that are about processes. -/
inductive SyscallNumber : Type where
  /-- `exit` -/
  | exit : SyscallNumber
  /-- `create` -/
  | create : SyscallNumber
  /-- `destroy` -/
  | destroy : SyscallNumber
  /-- `start_exe` -/
  | startExe : SyscallNumber
  /-- `process_exit_code` -/
  | processExitCode : SyscallNumber

/-- `syscall_handler`, where `name` and `image` are what `rdx` and `r8` point to. -/
def syscallHandler (s : Kernel) (fuel a : ℕ) (n : SyscallNumber) (regs : Registers) (name : String)
    (image : Image) : Outcome (Control × Kernel) := do
  let regs := { regs with rax := 0 }
  match n with
  | .exit => s.exit fuel regs.rdx
  | .create => do
    let (handle, s) ← s.create fuel a name
    pure (.user { regs with rax := handle }, s)
  | .destroy => do
    let s ← s.destroy fuel regs.rdx
    pure (.user regs, s)
  | .startExe => do
    let (regs, s) ← s.startExe fuel regs image
    pure (.user regs, s)
  | .processExitCode => do
    let exitCode ← s.processExitCode regs.rdx
    pure (.user { regs with rax := exitCode }, s)

/-- `usermode_test`: the root process, at the address `root`. -/
def usermodeTest (s : Kernel) (fuel : ℕ) (root : ℕ) (image : Image) :
    Outcome (Control × Kernel) := do
  let s ← s.newProcess root
  let s ← s.load fuel root image
  let s ← s.start root
  let s ← s.setAsCurrent root
  let proc ← s.get root
  pure (.user proc.context_, s)

end Kernel

end Attos
