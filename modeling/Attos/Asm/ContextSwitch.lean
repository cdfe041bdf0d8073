import Attos.Asm.SyscallEntry

/-!
# Switching to a program and back

`switch_to` saves the registers of the kernel in a `registers` on the stack, stores where that is, and
loads the registers of a program from another one. `switch_to_restore` takes the stack pointer back
and the registers with it, and returns to where `switch_to` was called.

The stored address is also the stack that interrupts of the program use, so what they push is below
the saved registers. Whatever the program and the handlers of the kernel do in between,
`switch_to_restore` then returns from the call of `switch_to`, with the registers of the caller
(`switch_to_returns`).
-/

namespace Attos.Asm

open Lib Lib.X64 Registers

/-! ## The code -/

/-- `switch_to_stack_adjust` -/
def switchToStackAdjust : ℕ := registersSize + 8

/-- The registers that `restore_registers_rcx_last` loads first, in this order. -/
def restoredRegs : List Reg := [.rax, .rbx, .rdx, .rbp, .rsi, .rdi, .r8, .r9, .r10, .r11, .r12, .r13, .r14, .r15]

/-- `restore_registers_rcx_last` -/
def restoreRegistersRcxLast (base : Reg) : List Instr :=
  (restoredRegs.map fun r => .load r base (registersOffset (.reg r))) ++
    [.fxrstor base (registersOffset .fxState), .load .rcx base (registersOffset (.reg .rcx))]

/-- `switch_to`, where it saves registers. The stack segment goes where the code segment is. -/
def switchToSaves : List Instr :=
  (savedRegs.map fun r => .store .rsp (registersOffset (.reg r)) r) ++
    [.storeCs .rsp (registersOffset .cs), .pushf, .popMem .rsp (registersOffset .rflags),
      .store .rsp (registersOffset (.reg .rsp)) .rsp, .storeSs .rsp (registersOffset .cs),
      .fxsave .rsp (registersOffset .fxState)]

/-- The frame for `iretq`: where the words come from, and where they go to. -/
def switchToFrame : List (ℕ × ℕ) :=
  [(registersOffset .rip, 0x00), (registersOffset .cs, 0x08), (registersOffset .rflags, 0x10),
    (registersOffset (.reg .rsp), 0x18), (registersOffset .ss, 0x20)]

/-- `switch_to`, up to `iretq`. -/
def switchTo : List Instr :=
  prologueCode [.alloc switchToStackAdjust] ++ switchToSaves ++ [.store .rdx 0 .rsp] ++ prologueCode [.alloc 0x28] ++
    switchToFrame.flatMap (fun c => [.load .rax .rcx c.1, .store .rsp c.2 .rax]) ++ restoreRegistersRcxLast .rcx

/-- `switch_to_restore`, up to `ret`. -/
def switchToRestore : List Instr :=
  prologueCode [.allocUnwind switchToStackAdjust] ++ [.load .rsp .rcx 0] ++ restoreRegistersRcxLast .rsp ++
    [.pushMem .rsp (registersOffset .rflags), .popf, .add .rsp switchToStackAdjust]

/-! ## Saving and loading registers -/

/-- The flags that are saved: arithmetic changes the others. -/
def controlMask : Word := popfMask &&& ~~~statusMask

/-- The registers of the machine `m` are in the structure at `frame`. -/
structure SavedContext (frame : Word) (m : Machine) (mem : Ram) : Prop where
  /-- the general registers -/
  reg : ∀ r, r ≠ .rsp → mem.load64 (fieldAddr frame (.reg r)) = m.reg r
  /-- the x87 and SSE state -/
  fx : ∀ i : Fin 512, mem (fieldAddr frame .fxState + BitVec.ofNat 64 i) = m.fx i
  /-- the flags -/
  flags : mem.load64 (fieldAddr frame .rflags) &&& controlMask = m.flags &&& controlMask

theorem SavedContext.congr {frame : Word} {m : Machine} {mem mem' : Ram} (h : SavedContext frame m mem)
    (hkept : ∀ x, InBlock frame registersSize x → mem' x = mem x) : SavedContext frame m mem' := by
  refine ⟨fun r hr => ?_, fun i => ?_, ?_⟩
  · rw [load64_field_congr hkept _ (by cases r <;> decide)]
    exact h.reg r hr
  · have hfx := fxState_congr hkept i
    rw [read_fxState, read_fxState] at hfx
    exact hfx.trans (h.fx i)
  · rw [load64_field_congr hkept _ (by decide)]
    exact h.flags

theorem setStatus_control (flags result : Word) (carry adjust overflow : Bool) :
    setStatus flags result carry adjust overflow &&& controlMask = flags &&& controlMask := by
  rw [controlMask, BitVec.and_comm popfMask, ← BitVec.and_assoc, setStatus_and, BitVec.and_assoc]

/-- `pushfq` stores them. -/
theorem pushf_control (flags : Word) : flags &&& ~~~pushfClears &&& controlMask = flags &&& controlMask := by
  have hmask : ~~~pushfClears &&& controlMask = controlMask := by decide
  rw [BitVec.and_assoc, hmask]

/-- `popfq` loads them. -/
theorem popf_control (flags word : Word) :
    ((word &&& popfMask) ||| (flags &&& ~~~(popfMask ||| 0x10000))) &&& controlMask = word &&& controlMask := by
  have hmask : popfMask &&& controlMask = controlMask := by decide
  have hrest : ~~~(popfMask ||| 0x10000) &&& controlMask = 0#64 := by decide
  rw [BitVec.and_or_distrib_right, BitVec.and_assoc, BitVec.and_assoc, hmask, hrest, BitVec.and_zero, BitVec.or_zero]

section Frame

variable {top : Word} {m m' : Machine}

/-- Where a field of the structure is, from the return address of `switch_to`. -/
theorem contextField (field : RegistersField) (h : registersOffset field ≤ 712) :
    fieldAddr (below top 712) field = below top (712 - registersOffset field) := below_add top h

/-- The area of `fxsave` is aligned. -/
theorem context_fx_aligned (htop : top.toNat % 16 = 8) : (below top 584).toNat % 16 = 0 := by
  rw [below, BitVec.toNat_sub, BitVec.toNat_ofNat]
  omega

/-- The registers are saved in the order of their fields. -/
theorem savedRegs_at {r : Reg} (hr : r ≠ .rsp) :
    savedRegs[registersOffset (.reg r) / 8]? = some r ∧ registersOffset (.reg r) % 8 = 0 := by
  cases r <;> first | exact absurd rfl hr | decide

/-- The fields of two registers are apart. -/
theorem registersOffset_apart {r r' : Reg} (hr : r ≠ .rsp) (hr' : r' ≠ .rsp) (hne : r' ≠ r) :
    registersOffset (.reg r) + 8 ≤ registersOffset (.reg r') ∨
      registersOffset (.reg r') + 8 ≤ registersOffset (.reg r) := by
  obtain ⟨hat, hmod⟩ := savedRegs_at hr
  obtain ⟨hat', hmod'⟩ := savedRegs_at hr'
  have hoffset : registersOffset (.reg r') ≠ registersOffset (.reg r) := by
    intro h
    rw [h, hat] at hat'
    exact hne (Option.some.inj hat').symm
  omega

/-- **The registers are saved.** -/
theorem switchToSaves_saves (hrsp : m.reg .rsp = below top 712) (htop : top.toNat % 16 = 8) :
    ∃ mem, Machine.run switchToSaves m = .done { m with mem := mem } ∧ SavedContext (below top 712) m mem ∧
      ∀ x, ¬ InBlock (below top 720) 712 x → mem x = m.mem x := by
  have haddr : ∀ (mem : Ram) {d : ℕ}, d ≤ 712 →
      ({ m with mem := mem } : Machine).addr .rsp d = below top (712 - d) := by
    intro mem d hd
    change m.reg .rsp + _ = _
    rw [hrsp]
    exact below_add top hd
  have hcs : ∀ mem : Ram, ({ m with mem := mem } : Machine).addr .rsp (registersOffset .cs) = below top 40 :=
    fun mem => haddr mem (by decide)
  have hflags : ∀ mem : Ram, ({ m with mem := mem } : Machine).addr .rsp (registersOffset .rflags) = below top 32 :=
    fun mem => haddr mem (by decide)
  have hword : ∀ mem : Ram, ({ m with mem := mem } : Machine).addr .rsp (registersOffset (.reg .rsp)) = below top 24 :=
    fun mem => haddr mem (by decide)
  have hfx : ∀ mem : Ram, ({ m with mem := mem } : Machine).addr .rsp (registersOffset .fxState) = below top 584 :=
    fun mem => haddr mem (by decide)
  have hpush : m.reg .rsp - 8 = below top 720 := by
    rw [hrsp]
    exact below_sub top (d := 712) (k := 8)
  let word := m.flags &&& ~~~pushfClears
  let mem₁ := savedRegs.foldl (fun mem r => mem.store64 (m.addr .rsp (registersOffset (.reg r))) (m.reg r)) m.mem
  let mem₂ := mem₁.store (below top 40) 2 (byteOf (m.cs.setWidth 64))
  let mem₃ := (mem₂.store64 (below top 720) word).store64 (below top 32) word
  let mem₄ := (mem₃.store64 (below top 24) (below top 712)).store (below top 40) 2 (byteOf (m.ss.setWidth 64))
  let mem₅ := Machine.fxStore { m with mem := mem₄ } (below top 584)
  have hsaved : Machine.run (savedRegs.map fun r => .store .rsp (registersOffset (.reg r)) r) m =
      .done { m with mem := mem₁ } := m.run_stores ..
  have hmoved : Machine.run [.pushf, .popMem .rsp (registersOffset .rflags)] { m with mem := mem₂ } =
      .done { m with mem := mem₃ } := by
    rw [Machine.run_pushf_popMem, hflags]
    change Outcome.done { m with mem := (mem₂.store64 (m.reg .rsp - 8) word).store64 _ word } = _
    rw [hpush]
  have hstored : ({ m with mem := mem₃ } : Machine).exec (.store .rsp (registersOffset (.reg .rsp)) .rsp) =
      .done { m with mem := mem₃.store64 (below top 24) (below top 712) } := by
    rw [Machine.exec_store (hword _)]
    exact congrArg (fun v => Outcome.done { m with mem := mem₃.store64 (below top 24) v }) hrsp
  have hrun : Machine.run switchToSaves m = .done { m with mem := mem₅ } := by
    rw [switchToSaves, Machine.run_append, hsaved, Outcome.done_bind, Machine.run_cons,
      Machine.exec_storeCs (hcs mem₁), Outcome.done_bind]
    change Machine.run ([.pushf, .popMem .rsp (registersOffset .rflags)] ++ _) { m with mem := mem₂ } = _
    rw [Machine.run_append, hmoved, Outcome.done_bind, Machine.run_cons, hstored, Outcome.done_bind, Machine.run_cons,
      Machine.exec_storeSs (hcs _), Outcome.done_bind, Machine.run_cons,
      Machine.exec_fxsave (hfx mem₄) (context_fx_aligned htop), Outcome.done_bind, Machine.run_nil]
  -- The words above the flags and the general registers are only written once.
  have hkept : ∀ x, ¬ InBlock (below top 40) 2 x → ¬ InBlock (below top 720) 8 x → ¬ InBlock (below top 32) 8 x →
      ¬ InBlock (below top 24) 8 x → ¬ InBlock (below top 584) 512 x → mem₅ x = mem₁ x := by
    intro x hcs hpushed hflags hword hfx
    calc mem₅ x = mem₄ x := Machine.fxStore_of_not_inBlock _ hfx
      _ = (mem₃.store64 (below top 24) (below top 712)) x := Ram.store_of_not_inBlock hcs
      _ = mem₃ x := Ram.store_of_not_inBlock hword
      _ = (mem₂.store64 (below top 720) word) x := Ram.store_of_not_inBlock hflags
      _ = mem₂ x := Ram.store_of_not_inBlock hpushed
      _ = mem₁ x := Ram.store_of_not_inBlock hcs
  refine ⟨mem₅, hrun, ⟨fun r hr => ?_, fun i => ?_, ?_⟩, fun x hx => ?_⟩
  · have hle := registersOffset_reg hr
    have hmem₁ : mem₁.load64 (below top (712 - registersOffset (.reg r))) = m.reg r := by
      have hplace : m.addr .rsp (registersOffset (.reg r)) = below top (712 - registersOffset (.reg r)) :=
        haddr m.mem (by omega)
      rw [← hplace]
      refine Ram.load64_stores (fun r => m.addr .rsp (registersOffset (.reg r))) m.reg (fun r' hr' hne => ?_)
        (List.mem_of_getElem? (savedRegs_at hr).1)
      have hrsp' : r' ≠ .rsp := fun h => absurd (h ▸ hr') (by decide)
      have hoffset := registersOffset_apart hr hrsp' hne
      have hle' := registersOffset_reg hrsp'
      exact apart_of_le (m.reg .rsp) (by omega) (by omega) (by omega) (by decide) (by decide)
    rw [contextField _ (by omega), ← hmem₁]
    refine Ram.load64_congr fun x hx => ?_
    have hapart : ∀ {e n : ℕ}, (e + 8 ≤ 712 - registersOffset (.reg r) ∨ 712 - registersOffset (.reg r) + n ≤ e) →
        e ≤ 720 → 0 < n → n ≤ 720 → ¬ InBlock (below top e) n x := fun h he hn hn' =>
      (apart_below top h.symm (by omega) (by omega) hn (by decide) (by omega) (by decide)).not_inBlock hx
    exact hkept x (hapart (by omega) (by decide) (by decide) (by decide))
      (hapart (by omega) (by decide) (by decide) (by decide)) (hapart (by omega) (by decide) (by decide) (by decide))
      (hapart (by omega) (by decide) (by decide) (by decide)) (hapart (by omega) (by decide) (by decide) (by decide))
  · rw [contextField _ (by decide)]
    exact Machine.fxStore_byte _ (below top 584) i
  · rw [contextField _ (by decide)]
    have hplace : mem₅.load64 (below top 32) = word := by
      refine (Machine.load64_fxStore_apart _ ?_).trans ((Ram.load64_store_apart ?_).trans
        ((Ram.load64_store64_apart ?_).trans (Ram.load64_store64 ..)))
      · exact apart_below top (.inl (by decide)) (by decide) (by decide) (by decide) (by decide) (by decide) (by decide)
      · exact apart_below top (.inl (by decide)) (by decide) (by decide) (by decide) (by decide) (by decide) (by decide)
      · exact apart_below top (.inr (by decide)) (by decide) (by decide) (by decide) (by decide) (by decide) (by decide)
    rw [← pushf_control m.flags]
    exact congrArg (· &&& controlMask) hplace
  · have hinside : ∀ {d n : ℕ}, d ≤ 720 → 720 - d + n ≤ 712 → ¬ InBlock (below top d) n x :=
      fun hd hn hin => hx (inBlock_below hin hd hn (by decide))
    rw [hkept x (hinside (by decide) (by decide)) (hinside (by decide) (by decide)) (hinside (by decide) (by decide))
      (hinside (by decide) (by decide)) (hinside (by decide) (by decide))]
    refine Ram.stores_of_not_inBlock fun r hr => ?_
    have hle := registersOffset_reg (r := r) fun h => absurd (h ▸ hr) (by decide)
    have hplace : m.addr .rsp (registersOffset (.reg r)) = below top (712 - registersOffset (.reg r)) :=
      haddr m.mem (by omega)
    rw [hplace]
    exact hinside (by omega) (by omega)

/-- **`restore_registers_rcx_last`** loads the registers, except for the stack pointer. -/
theorem restoreRegistersRcxLast_run (m : Machine) (base : Reg) (hbase : base ∉ restoredRegs)
    (hfx : (m.addr base (registersOffset .fxState)).toNat % 16 = 0) :
    ∃ reg, Machine.run (restoreRegistersRcxLast base) m =
        .done { m with reg := reg, fx := m.fxImage (m.addr base (registersOffset .fxState)) } ∧
      reg .rsp = m.reg .rsp ∧ ∀ r, r ≠ .rsp → reg r = m.mem.load64 (fieldAddr (m.reg base) (.reg r)) := by
  let m₁ : Machine := { m with
    reg := fun r => if r ∈ restoredRegs then m.mem.load64 (m.addr base (registersOffset (.reg r))) else m.reg r }
  have hrun : Machine.run (restoredRegs.map fun r => .load r base (registersOffset (.reg r))) m = .done m₁ :=
    m.run_loads (fun r => registersOffset (.reg r)) hbase
  have haddr : ∀ (fx : Fin 512 → UInt8) (d : ℕ), ({ m₁ with fx := fx } : Machine).addr base d = m.addr base d :=
    fun fx d => congrArg (· + BitVec.ofNat 64 d) (if_neg hbase)
  refine ⟨Function.update m₁.reg .rcx (m.mem.load64 (m.addr base (registersOffset (.reg .rcx)))), ?_, ?_, fun r hr => ?_⟩
  · rw [restoreRegistersRcxLast, Machine.run_append, hrun, Outcome.done_bind, Machine.run_cons,
      Machine.exec_fxrstor (haddr m₁.fx _) hfx, Outcome.done_bind, Machine.run_cons, Machine.exec_load (haddr _ _),
      Outcome.done_bind, Machine.run_nil]
    rfl
  · rw [Function.update_of_ne (by decide)]
    rfl
  · by_cases hrcx : r = .rcx
    · rw [hrcx, Function.update_self]
      rfl
    · rw [Function.update_of_ne hrcx]
      refine if_pos ?_
      cases r <;> first | exact absurd rfl hr | exact absurd rfl hrcx | decide

/-- The words of the frame for `iretq`, below the structure. -/
theorem switchToFrame_apart : ∀ c ∈ switchToFrame, ∀ c' ∈ switchToFrame, c' ≠ c → c'.2 + 8 ≤ c.2 ∨ c.2 + 8 ≤ c'.2 := by
  decide

theorem switchToFrame_le : ∀ c ∈ switchToFrame, c.1 + 8 ≤ registersSize ∧ c.2 + 8 ≤ 0x28 := by
  decide

/-- **The frame for `iretq`** is copied from the structure of the program. -/
theorem switchToFrame_copies (hrsp : m.reg .rsp = below top 752)
    (hapart : Lib.Apart (below top 752) 752 (m.reg .rcx) registersSize) :
    ∃ reg mem, Machine.run (switchToFrame.flatMap fun c => [.load .rax .rcx c.1, .store .rsp c.2 .rax]) m =
        .done { m with reg := reg, mem := mem } ∧ (∀ r, r ≠ .rax → reg r = m.reg r) ∧
      (∀ c ∈ switchToFrame, mem.load64 (below top 752 + BitVec.ofNat 64 c.2) =
        m.mem.load64 (m.reg .rcx + BitVec.ofNat 64 c.1)) ∧
      ∀ x, ¬ InBlock (below top 752) 0x28 x → mem x = m.mem x := by
  have hsize : registersSize = 704 := rfl
  have hplace : ∀ d, m.addr .rsp d = below top 752 + BitVec.ofNat 64 d := fun d => congrArg (· + _) hrsp
  obtain ⟨reg, hrun, hreg⟩ := m.run_copies .rax .rcx .rsp (by decide) (by decide)
    switchToFrame fun c hc c' hc' => by
      obtain ⟨hle, -⟩ := switchToFrame_le c hc
      obtain ⟨-, hle'⟩ := switchToFrame_le c' hc'
      have hword : Lib.Apart (below top 752 + BitVec.ofNat 64 c'.2) 8 (m.reg .rcx) registersSize :=
        hapart.sub (by omega) (by decide) (by decide) (by decide) (by decide)
      rw [hplace]
      exact (hword.symm.sub hle (by decide) (by decide) (by decide) (by decide)).symm
  refine ⟨reg, _, hrun, hreg, fun c hc => ?_, fun x hx => ?_⟩
  · rw [← hplace]
    refine Ram.load64_stores (fun c : ℕ × ℕ => m.addr .rsp c.2) (fun c => m.mem.load64 (m.addr .rcx c.1))
      (fun c' hc' hne => ?_) hc
    obtain ⟨-, hle⟩ := switchToFrame_le c hc
    obtain ⟨-, hle'⟩ := switchToFrame_le c' hc'
    exact apart_of_le _ (switchToFrame_apart c hc c' hc' hne) (by omega) (by omega) (by decide) (by decide)
  · refine Ram.stores_of_not_inBlock fun c hc hin => hx ?_
    obtain ⟨-, hle⟩ := switchToFrame_le c hc
    rw [hplace, below_add top (by omega)] at hin
    exact inBlock_below hin (by omega) (by omega) (by decide)

/-- The machine `m'` has left for the program whose registers are in the structure at `regs`. -/
structure SwitchedTo (m m' : Machine) : Prop where
  /-- the registers of the program are loaded -/
  of : (Registers.read m.mem (m.reg .rcx)).Of m'.iretq
  /-- its flags, too -/
  flags : m'.iretq.flags = m.mem.load64 (fieldAddr (m.reg .rcx) .rflags)
  /-- the registers of the kernel are saved -/
  saved : SavedContext (below (m.reg .rsp) 712) m m'.mem
  /-- where they are is stored -/
  word : m'.mem.load64 (m.reg .rdx) = below (m.reg .rsp) 712
  /-- memory is written there only -/
  memory : ∀ x, ¬ InBlock (below (m.reg .rsp) 752) 752 x → ¬ InBlock (m.reg .rdx) 8 x → m'.mem x = m.mem x

/-- **`switch_to`** saves the registers of the kernel and loads those of the program. -/
theorem switchTo_switches (m : Machine) (hrsp : (m.reg .rsp).toNat % 16 = 8) (hrcx : (m.reg .rcx).toNat % 16 = 0)
    (hregs : Lib.Apart (below (m.reg .rsp) 752) 752 (m.reg .rcx) registersSize)
    (hword : Lib.Apart (below (m.reg .rsp) 752) 752 (m.reg .rdx) 8)
    (hapart : Lib.Apart (m.reg .rdx) 8 (m.reg .rcx) registersSize) :
    ∃ m', Machine.run switchTo m = .done m' ∧ SwitchedTo m m' := by
  have hsize : registersSize = 704 := rfl
  obtain ⟨top, htop⟩ : ∃ top, top = m.reg .rsp := ⟨_, rfl⟩
  rw [← htop] at hrsp hregs hword
  -- The registers of the kernel are saved.
  let m₀ : Machine := { m.set .rsp (below top 712) with
    flags := subFlags m.flags top (BitVec.ofNat 64 switchToStackAdjust) }
  have hrun₀ : Machine.run (prologueCode [.alloc switchToStackAdjust]) m = .done m₀ := by
    change Outcome.done _ = _
    rw [← htop]
    rfl
  have hreg₀ : ∀ r, r ≠ .rsp → m₀.reg r = m.reg r := fun r hr => Machine.set_reg_ne m _ hr
  obtain ⟨mem₁, hrun₁, hsaved, hmem₁⟩ := switchToSaves_saves (m := m₀) (Machine.set_reg_self m .rsp (below top 712)) hrsp
  have hsaved₀ : SavedContext (below top 712) m mem₁ :=
    ⟨fun r hr => (hsaved.reg r hr).trans (hreg₀ r hr), hsaved.fx, hsaved.flags.trans (setStatus_control ..)⟩
  -- Where they are is stored.
  let m₂ : Machine := { m₀ with mem := mem₁.store64 (m.reg .rdx) (below top 712) }
  have hrun₂ : Machine.run [.store .rdx 0 .rsp] { m₀ with mem := mem₁ } = .done m₂ := by
    have haddr : ({ m₀ with mem := mem₁ } : Machine).addr .rdx 0 = m.reg .rdx :=
      (BitVec.add_zero _).trans (hreg₀ .rdx (by decide))
    rw [Machine.run_cons, Machine.exec_store haddr, Outcome.done_bind, Machine.run_nil]
    exact congrArg (fun v => Outcome.done { m₀ with mem := mem₁.store64 (m.reg .rdx) v }) (Machine.set_reg_self m ..)
  let m₃ : Machine := { m₂.set .rsp (below top 752) with
    flags := subFlags m₂.flags (below top 712) (BitVec.ofNat 64 0x28) }
  have hrun₃ : Machine.run (prologueCode [.alloc 0x28]) m₂ = .done m₃ := by
    have hrsp₂ : m₂.reg .rsp = below top 712 := Machine.set_reg_self m .rsp (below top 712)
    change Outcome.done { m₂.set .rsp (m₂.reg .rsp - BitVec.ofNat 64 0x28) with
      flags := subFlags m₂.flags (m₂.reg .rsp) (BitVec.ofNat 64 0x28) } = _
    rw [hrsp₂, below_sub top]
  have hreg₃ : ∀ r, r ≠ .rsp → m₃.reg r = m.reg r :=
    fun r hr => (Machine.set_reg_ne m₂ _ hr).trans (hreg₀ r hr)
  have hrcx₃ : m₃.reg .rcx = m.reg .rcx := hreg₃ .rcx (by decide)
  -- The frame is copied and the registers of the program are loaded.
  obtain ⟨reg₄, mem₄, hrun₄, hreg₄, hframe, hmem₄⟩ :=
    switchToFrame_copies (m := m₃) (Machine.set_reg_self m₂ .rsp (below top 752)) (by rwa [hrcx₃])
  have hrcx₄ : reg₄ .rcx = m.reg .rcx := (hreg₄ .rcx (by decide)).trans hrcx₃
  let m₄ : Machine := { m₃ with reg := reg₄, mem := mem₄ }
  have hfx₄ : m₄.addr .rcx (registersOffset .fxState) = fieldAddr (m.reg .rcx) .fxState := congrArg (· + _) hrcx₄
  obtain ⟨reg₅, hrun₅, hrsp₅, hreg₅⟩ := restoreRegistersRcxLast_run m₄ .rcx (by decide) (by
    have hoffset : registersOffset .fxState = 128 := rfl
    rw [hfx₄, fieldAddr, hoffset, BitVec.toNat_add, BitVec.toNat_ofNat]
    omega)
  let m₅ : Machine := { m₄ with reg := reg₅, fx := m₄.fxImage (m₄.addr .rcx (registersOffset .fxState)) }
  -- The structure of the program is not written.
  have hstruct₃ : ∀ x, InBlock (m.reg .rcx) registersSize x → m₃.mem x = m.mem x := by
    intro x hx
    refine (Ram.store_of_not_inBlock (hapart.not_inBlock hx)).trans (hmem₁ x fun hin => hregs.not_inBlock hx ?_)
    exact inBlock_below hin (by decide) (by decide) (by decide)
  have hstruct : ∀ x, InBlock (m.reg .rcx) registersSize x → mem₄ x = m.mem x := by
    intro x hx
    refine (hmem₄ x fun hin => hregs.not_inBlock hx ?_).trans (hstruct₃ x hx)
    exact inBlock_below hin le_rfl (by decide) (by decide)
  have hword₅ : ∀ field d, (registersOffset field, d) ∈ switchToFrame → registersOffset field + 8 ≤ registersSize →
      m₅.mem.load64 (m₅.addr .rsp d) = m.mem.load64 (fieldAddr (m.reg .rcx) field) := by
    intro field d hc hfield
    have haddr : m₅.addr .rsp d = below top 752 + BitVec.ofNat 64 d := by
      refine congrArg (· + BitVec.ofNat 64 d) (hrsp₅.trans ((hreg₄ .rsp (by decide)).trans ?_))
      exact Machine.set_reg_self m₂ .rsp (below top 752)
    rw [haddr]
    refine (hframe _ hc).trans ?_
    rw [hrcx₃]
    exact load64_field_congr hstruct₃ field hfield
  have hrun : Machine.run switchTo m = .done m₅ := by
    rw [switchTo, Machine.run_append, Machine.run_append, Machine.run_append, Machine.run_append, Machine.run_append,
      hrun₀, Outcome.done_bind, hrun₁, Outcome.done_bind, hrun₂, Outcome.done_bind, hrun₃, Outcome.done_bind, hrun₄,
      Outcome.done_bind]
    exact hrun₅
  have hflags : m₅.iretq.flags = m.mem.load64 (fieldAddr (m.reg .rcx) .rflags) :=
    hword₅ .rflags 0x10 (by decide) (by decide)
  have hof : (Registers.read m.mem (m.reg .rcx)).Of m₅.iretq := by
    refine ⟨fun r => ?_, fun i => ?_, ?_, ?_, ?_, ?_⟩
    · rw [read_get]
      by_cases hr : r = .rsp
      · rw [hr, Machine.iretq_rsp]
        exact (hword₅ (.reg .rsp) 0x18 (by decide) (by decide)).symm
      · rw [Machine.iretq_reg _ hr]
        refine Eq.trans ?_ (hreg₅ r hr).symm
        change _ = mem₄.load64 (fieldAddr (reg₄ .rcx) (.reg r))
        rw [hrcx₄]
        exact (load64_field_congr hstruct _ (by cases r <;> decide)).symm
    · have himage : m₅.iretq.fx i = mem₄ (fieldAddr (m.reg .rcx) .fxState + BitVec.ofNat 64 i) :=
        congrArg (fun a => mem₄ (a + BitVec.ofNat 64 i)) hfx₄
      exact (fxState_congr hstruct i).symm.trans ((read_fxState ..).trans himage.symm)
    · rw [read_rip, Machine.iretq_rip]
      exact (hword₅ .rip 0x00 (by decide) (by decide)).symm
    · rw [read_cs, Machine.iretq_cs, Ram.load16_eq]
      exact congrArg _ (hword₅ .cs 0x08 (by decide) (by decide)).symm
    · rw [read_eflags, hflags]
    · rw [read_ss, Machine.iretq_ss, Ram.load16_eq]
      exact congrArg _ (hword₅ .ss 0x20 (by decide) (by decide)).symm
  refine ⟨m₅, hrun, ⟨hof, hflags, ?_, ?_, ?_⟩⟩
  · rw [← htop]
    refine hsaved₀.congr fun x hx => (hmem₄ x ?_).trans (Ram.store_of_not_inBlock ?_)
    · exact (apart_below top (.inl (by decide)) (by decide) (by decide) (by decide) (by decide) (by decide)
        (by decide)).not_inBlock hx
    · exact hword.symm.not_inBlock (inBlock_below hx (by decide) (by decide) (by decide))
  · rw [← htop]
    refine (Ram.load64_congr fun x hx => hmem₄ x fun hin => ?_).trans (Ram.load64_store64 ..)
    exact hword.not_inBlock hx (inBlock_below hin le_rfl (by decide) (by decide))
  · rw [← htop]
    intro x hx hx'
    have hinside : ∀ {d n : ℕ}, d ≤ 752 → 752 - d + n ≤ 752 → ¬ InBlock (below top d) n x :=
      fun hd hn hin => hx (inBlock_below hin hd hn (by decide))
    calc mem₄ x = m₂.mem x := hmem₄ x (hinside le_rfl (by decide))
      _ = mem₁ x := Ram.store_of_not_inBlock hx'
      _ = m.mem x := hmem₁ x (hinside (by decide) (by decide))

/-- The machine `m'` goes on as the caller of `switch_to`, which is the machine `m`. -/
structure SwitchedBack (m m' : Machine) : Prop where
  /-- the general registers -/
  reg : m'.reg = m.reg
  /-- the x87 and SSE state -/
  fx : m'.fx = m.fx
  /-- the flags -/
  flags : m'.flags &&& controlMask = m.flags &&& controlMask

/-- **`switch_to_restore`** loads the registers of the kernel again. -/
theorem switchToRestore_restores {m₂ : Machine} (hrsp : (m.reg .rsp).toNat % 16 = 8)
    (hword : m₂.mem.load64 (m₂.reg .rcx) = below (m.reg .rsp) 712)
    (hsaved : SavedContext (below (m.reg .rsp) 712) m m₂.mem) :
    ∃ m₃, Machine.run switchToRestore m₂ = .done m₃ ∧ SwitchedBack m m₃ ∧
      ∀ x, ¬ InBlock (below (m.reg .rsp) 720) 8 x → m₃.mem x = m₂.mem x := by
  obtain ⟨top, htop⟩ : ∃ top, top = m.reg .rsp := ⟨_, rfl⟩
  rw [← htop] at hrsp hword hsaved ⊢
  let m₀ := m₂.set .rsp (below top 712)
  have hrsp₀ : m₀.reg .rsp = below top 712 := Machine.set_reg_self ..
  have hload : m₂.exec (.load .rsp .rcx 0) = .done m₀ := by
    have haddr : m₂.addr .rcx 0 = m₂.reg .rcx := BitVec.add_zero _
    rw [Machine.exec_load haddr, hword]
  have hfx₀ : m₀.addr .rsp (registersOffset .fxState) = below top 584 := by
    rw [Machine.addr, hrsp₀]
    exact below_add top (by decide)
  obtain ⟨reg, hrun, hreg, hregs⟩ := restoreRegistersRcxLast_run m₀ .rsp (by decide) (by
    rw [hfx₀]
    exact context_fx_aligned hrsp)
  rw [hrsp₀] at hreg hregs
  let m₁ : Machine := { m₀ with reg := reg, fx := m₀.fxImage (m₀.addr .rsp (registersOffset .fxState)) }
  let word := m₁.mem.load64 (m₁.addr .rsp (registersOffset .rflags))
  let m₄ : Machine := { m₁ with
    mem := m₁.mem.store64 (m₁.reg .rsp - 8) word
    flags := (word &&& popfMask) ||| (m₁.flags &&& ~~~(popfMask ||| 0x10000)) }
  let m₅ : Machine := { m₄.set .rsp (m₄.reg .rsp + BitVec.ofNat 64 switchToStackAdjust) with
    flags := addFlags m₄.flags (m₄.reg .rsp) (BitVec.ofNat 64 switchToStackAdjust) }
  have hpopf : Machine.run [.pushMem .rsp (registersOffset .rflags), .popf] m₁ = .done m₄ := m₁.run_pushMem_popf ..
  refine ⟨m₅, ?_, ⟨funext fun r => ?_, funext fun i => ?_, ?_⟩, fun x hx => ?_⟩
  · change Machine.run ((([] ++ [.load .rsp .rcx 0]) ++ restoreRegistersRcxLast .rsp) ++
      ([.pushMem .rsp (registersOffset .rflags), .popf] ++ [.add .rsp switchToStackAdjust])) m₂ = _
    rw [Machine.run_append, Machine.run_append, List.nil_append, Machine.run_cons, hload, Outcome.done_bind,
      Machine.run_nil, Outcome.done_bind, hrun, Outcome.done_bind, Machine.run_append, hpopf, Outcome.done_bind]
    rfl
  · by_cases hr : r = .rsp
    · rw [hr]
      change (m₄.set .rsp (reg .rsp + BitVec.ofNat 64 switchToStackAdjust)).reg .rsp = _
      rw [Machine.set_reg_self, hreg, below_add top (by decide), ← htop]
      exact BitVec.sub_zero top
    · refine (Machine.set_reg_ne m₄ _ hr).trans ((hregs r hr).trans ?_)
      exact hsaved.reg r hr
  · refine Eq.trans ?_ (hsaved.fx i)
    have haddr : fieldAddr (below top 712) .fxState = m₀.addr .rsp (registersOffset .fxState) := by
      rw [Machine.addr, hrsp₀]
    rw [haddr]
    rfl
  · have hword : word = m₂.mem.load64 (fieldAddr (below top 712) .rflags) :=
      congrArg (fun a => m₂.mem.load64 (a + _)) hreg
    rw [← hsaved.flags, ← hword, ← popf_control m₁.flags word]
    exact setStatus_control ..
  · have hplace : m₁.reg .rsp - 8 = below top 720 := by
      refine (congrArg (· - 8) hreg).trans ?_
      exact below_sub top (d := 712) (k := 8)
    refine Ram.store_of_not_inBlock ?_
    rwa [hplace]

end Frame

/-! ## Runs

The program runs and is interrupted, and it calls the kernel, until the kernel goes back. -/

/-- Where the kernel keeps its stacks: `switch_to` is called with the stack pointer `top`, the stack pointer
for interrupts is at `rsp0`, and the one for system calls is at `ptr` and is `stack`. -/
structure KernelLayout (top rsp0 ptr stack : Word) : Prop where
  /-- the stack is aligned as for a call -/
  top_aligned : top.toNat % 16 = 8
  /-- the stack for system calls is aligned -/
  stack_aligned : stack.toNat % 16 = 0
  /-- the words are not in the part of the stack that is used -/
  rsp0_frame : Lib.Apart (below top 1448) 1456 rsp0 8
  /-- nor is the other one -/
  ptr_frame : Lib.Apart (below top 1448) 1456 ptr 8
  /-- the stack for system calls is another one -/
  stack_frame : Lib.Apart (below stack 736) 736 (below top 712) 720
  /-- the words are not in it -/
  stack_rsp0 : Lib.Apart (below stack 736) 736 rsp0 8
  /-- nor is the other one -/
  stack_ptr : Lib.Apart (below stack 736) 736 ptr 8
  /-- the words are apart -/
  ptr_rsp0 : Lib.Apart ptr 8 rsp0 8

/-- The address is one of the frame of `switch_to` and its return address, or of the word that says where
the frame is. -/
def InContext (top rsp0 x : Word) : Prop := InBlock (below top 712) 720 x ∨ InBlock rsp0 8 x

/-- The frame of `switch_to` is as it was. -/
def Kept (top rsp0 : Word) (mem mem' : Ram) : Prop := ∀ x, InContext top rsp0 x → mem' x = mem x

theorem Kept.trans {top rsp0 : Word} {mem mem' mem'' : Ram} (h : Kept top rsp0 mem mem') (h' : Kept top rsp0 mem' mem'') :
    Kept top rsp0 mem mem'' := fun x hx => (h' x hx).trans (h x hx)

/-- What happens to a program: it does something, it is interrupted, or it calls the kernel. The kernel
serves the interrupts and the calls. -/
inductive ContextStep (user service : Machine → Machine → Prop) (rsp0 ptr lstar : Word) : Machine → Machine → Prop where
  /-- the program does something -/
  | user {m m' : Machine} : user m m' → ContextStep user service rsp0 ptr lstar m m'
  /-- the program is interrupted -/
  | interrupt {m m₀ m₁ m₂ m₃ : Machine} {n : BitVec 8} {handler : Word} {error : Option Word} {code : List Instr} :
      m.cs &&& 3 ≠ 0 → (error.isSome ↔ HasErrorCode n) →
      Machine.run (isrCode n) (m.interrupt (m.mem.load64 rsp0) kernelCs handler error) = .done m₀ →
      Machine.run isrEnter m₀ = .done m₁ → service m₁ m₂ → isrLeave = some code → Machine.run code m₂ = .done m₃ →
      ContextStep user service rsp0 ptr lstar m m₃.iretq
  /-- the program calls the kernel -/
  | call {m m₁ m₂ m₃ : Machine} {code : List Instr} :
      Machine.run (syscallEnter ptr) (m.syscall syscallStar lstar syscallFmask) = .done m₁ → service m₁ m₂ →
      syscallLeave ptr = some code → Machine.run code m₂ = .done m₃ →
      ContextStep user service rsp0 ptr lstar m (m₃.sysret syscallStar)

section Runs

variable {user service : Machine → Machine → Prop} {top rsp0 ptr stack lstar : Word} {m m' : Machine}

/-- The program runs above the frame of `switch_to`, and the words are as the kernel left them. -/
structure Running (top rsp0 ptr stack : Word) (mem : Ram) (m : Machine) : Prop where
  /-- the frame is as it was -/
  kept : Kept top rsp0 mem m.mem
  /-- interrupts use the stack below it -/
  rsp0 : m.mem.load64 rsp0 = below top 712
  /-- system calls use their stack -/
  ptr : m.mem.load64 ptr = stack

/-- A system call, up to its service routine. -/
theorem syscallEnter_kept (layout : KernelLayout top rsp0 ptr stack) (hptr : m.mem.load64 ptr = stack)
    (henter : Machine.run (syscallEnter ptr) (m.syscall syscallStar lstar syscallFmask) = .done m') :
    m'.reg .rsp = below stack 736 ∧ Kept top rsp0 m.mem m'.mem := by
  obtain ⟨m₁, hrun, hsaved⟩ := syscallEnter_saved (m := m.syscall syscallStar lstar syscallFmask) hptr layout.stack_aligned
    layout.stack_ptr
  cases henter.symm.trans hrun
  refine ⟨hsaved.rsp, fun x hx => hsaved.memory x ?_ ?_⟩
  · exact hx.elim layout.stack_frame.not_inBlock layout.stack_rsp0.not_inBlock
  · refine hx.elim (fun hin => layout.ptr_frame.symm.not_inBlock ?_) layout.ptr_rsp0.not_inBlock
    exact inBlock_below hin (by decide) (by decide) (by decide)

/-- An interrupt of the program, up to the service routine. -/
theorem interrupt_kept {m₀ : Machine} {n : BitVec 8} {handler : Word} {error : Option Word}
    (layout : KernelLayout top rsp0 ptr stack) (hrsp0 : m.mem.load64 rsp0 = below top 712) (huser : m.cs &&& 3 ≠ 0)
    (herror : error.isSome ↔ HasErrorCode n)
    (hcode : Machine.run (isrCode n) (m.interrupt (m.mem.load64 rsp0) kernelCs handler error) = .done m₀)
    (henter : Machine.run isrEnter m₀ = .done m') :
    m'.reg .rsp = below top 1448 ∧ Kept top rsp0 m.mem m'.mem ∧ m'.mem.load64 ptr = m.mem.load64 ptr := by
  obtain ⟨m₁, m₂, hrun₁, hrun₂, h⟩ := interrupt_saves m (m.mem.load64 rsp0) handler n error herror
  cases hcode.symm.trans hrun₁
  cases henter.symm.trans hrun₂
  -- The stack for interrupts is right below the frame.
  have hbase : interruptBase m (m.mem.load64 rsp0) = below top 712 := by
    have htop := layout.top_aligned
    rw [interruptBase, if_pos huser, hrsp0]
    refine and_of_aligned ?_
    rw [below, BitVec.toNat_sub, BitVec.toNat_ofNat]
    omega
  have hbelow : below (below top 712) 736 = below top 1448 := below_sub top
  have hmemory : ∀ x, ¬ InBlock (below top 1448) 736 x → m'.mem x = m.mem x := by
    have hmemory := h.memory
    rwa [hbase, hbelow] at hmemory
  refine ⟨?_, fun x hx => hmemory x ?_, Ram.load64_congr fun x hx => hmemory x ?_⟩
  · rw [h.rsp, hbase, hbelow]
  · refine hx.elim (fun hin => ?_) fun hin => (layout.rsp0_frame.mono (by decide) le_rfl).not_inBlock hin
    exact (apart_below top (.inl (by decide)) (by decide) (by decide) (by decide) (by decide) (by decide)
      (by decide)).not_inBlock hin
  · exact (layout.ptr_frame.mono (by decide) le_rfl).not_inBlock hx

/-- What one step keeps. -/
theorem ContextStep.running {mem : Ram} (layout : KernelLayout top rsp0 ptr stack)
    (huser : ∀ m m', user m m' → Kept top rsp0 m.mem m'.mem ∧ m'.mem.load64 ptr = m.mem.load64 ptr)
    (hservice : ∀ m m', service m m' → m'.reg .rsp = m.reg .rsp ∧ Kept top rsp0 m.mem m'.mem ∧
      m'.mem.load64 ptr = m.mem.load64 ptr)
    (h : Running top rsp0 ptr stack mem m) (hstep : ContextStep user service rsp0 ptr lstar m m') :
    Running top rsp0 ptr stack mem m' := by
  have hrunning : ∀ {m' : Machine}, Kept top rsp0 m.mem m'.mem → m'.mem.load64 ptr = stack →
      Running top rsp0 ptr stack mem m' := fun hkept hptr =>
    ⟨h.kept.trans hkept, (Ram.load64_congr fun x hx => hkept x (.inr hx)).trans h.rsp0, hptr⟩
  cases hstep with
  | user hstep =>
    obtain ⟨hkept, hptr⟩ := huser _ _ hstep
    exact hrunning hkept (hptr.trans h.ptr)
  | interrupt hcs herror hcode henter hserved hleave hrun =>
    obtain ⟨hrsp, hkept, hptr⟩ := interrupt_kept layout h.rsp0 hcs herror hcode henter
    obtain ⟨hrsp', hkept', hptr'⟩ := hservice _ _ hserved
    have hframe : below (below top 752) 696 = below top 1448 := below_sub top
    have haligned : (below top 752).toNat % 16 = 8 := by
      have htop := layout.top_aligned
      rw [below, BitVec.toNat_sub, BitVec.toNat_ofNat]
      omega
    obtain ⟨code, m₃, hcode', hrun', hloaded⟩ := isrLeave_loaded ((hrsp'.trans hrsp).trans hframe.symm) haligned
    cases hleave.symm.trans hcode'
    cases hrun.symm.trans hrun'
    refine hrunning ?_ ?_
    · rw [Machine.iretq_mem, hloaded.mem]
      exact hkept.trans hkept'
    · rw [Machine.iretq_mem, hloaded.mem, hptr', hptr, h.ptr]
  | call henter hserved hleave hrun =>
    obtain ⟨hrsp, hkept⟩ := syscallEnter_kept layout h.ptr henter
    obtain ⟨hrsp', hkept', -⟩ := hservice _ _ hserved
    obtain ⟨code, m₃, hcode', hrun', hloaded⟩ := syscallLeave_loaded (hrsp'.trans hrsp) layout.stack_aligned
      layout.stack_ptr
    cases hleave.symm.trans hcode'
    cases hrun.symm.trans hrun'
    refine hrunning (fun x hx => ?_) hloaded.word
    have hout : ¬ InBlock ptr 8 x := by
      refine hx.elim (fun hin => layout.ptr_frame.symm.not_inBlock ?_) layout.ptr_rsp0.not_inBlock
      exact inBlock_below hin (by decide) (by decide) (by decide)
    exact (hloaded.memory x hout).trans ((hkept.trans hkept') x hx)

/-- Behind `switch_to` the program runs above the frame. -/
theorem SwitchedTo.running (layout : KernelLayout (m.reg .rsp) (m.reg .rdx) ptr stack) (hptr : m.mem.load64 ptr = stack)
    (h : SwitchedTo m m') : Running (m.reg .rsp) (m.reg .rdx) ptr stack m'.mem m'.iretq := by
  refine ⟨fun _ _ => rfl, h.word, (Ram.load64_congr fun x hx => h.memory x (fun hin => ?_) ?_).trans hptr⟩
  · exact layout.ptr_frame.symm.not_inBlock ((inBlock_below hin (by decide) (by decide) (by decide))) hx
  · exact layout.ptr_rsp0.symm.not_inBlock hx

/-- The program can call the kernel, which goes back at once. -/
theorem ContextStep.exists_call (layout : KernelLayout top rsp0 ptr stack) (hservice : ∀ m, service m m)
    (hptr : m.mem.load64 ptr = stack) :
    ∃ m', ContextStep user service rsp0 ptr lstar m m' ∧ m'.cs = userCs := by
  obtain ⟨m₁, henter, hsaved⟩ := syscallEnter_saved (m := m.syscall syscallStar lstar syscallFmask) hptr
    layout.stack_aligned layout.stack_ptr
  obtain ⟨code, m₂, hcode, hleave, -⟩ := syscallLeave_loaded hsaved.rsp layout.stack_aligned layout.stack_ptr
  exact ⟨_, .call henter (hservice m₁) hcode hleave, (sysret_segments m₂).1⟩

/-- The program can be interrupted, and the kernel goes back at once. -/
theorem ContextStep.exists_interrupt {n : BitVec 8} {error : Option Word} (herror : error.isSome ↔ HasErrorCode n)
    (hservice : ∀ m, service m m) (hcs : m.cs &&& 3 ≠ 0) (handler : Word) :
    ∃ m', ContextStep user service rsp0 ptr lstar m m' := by
  obtain ⟨m₀, m₁, hrun, henter, -, hreturns⟩ := interrupt_transparent m (m.mem.load64 rsp0) handler n error herror
  obtain ⟨code, m₂, hcode, hleave, -⟩ := hreturns m₁ rfl
  exact ⟨_, .interrupt hcs herror hrun henter (hservice m₁) hcode hleave⟩

/-- **`switch_to`** returns, like a procedure. It enters the program with the registers that it is given.
In every run of the program, the next system call gets to the kernel, and when the kernel calls
`switch_to_restore` there, this goes back to the caller of `switch_to`, which has its registers
again. -/
theorem switch_to_returns (m : Machine) (layout : KernelLayout (m.reg .rsp) (m.reg .rdx) ptr stack)
    (hrcx : (m.reg .rcx).toNat % 16 = 0)
    (hregs : Lib.Apart (below (m.reg .rsp) 752) 752 (m.reg .rcx) registersSize)
    (hapart : Lib.Apart (m.reg .rdx) 8 (m.reg .rcx) registersSize) (hptr : m.mem.load64 ptr = stack)
    (huser : ∀ m₁ m₂, user m₁ m₂ → Kept (m.reg .rsp) (m.reg .rdx) m₁.mem m₂.mem ∧
      m₂.mem.load64 ptr = m₁.mem.load64 ptr)
    (hservice : ∀ m₁ m₂, service m₁ m₂ → m₂.reg .rsp = m₁.reg .rsp ∧ Kept (m.reg .rsp) (m.reg .rdx) m₁.mem m₂.mem ∧
      m₂.mem.load64 ptr = m₁.mem.load64 ptr) :
    ∃ m', Machine.run switchTo m = .done m' ∧ (Registers.read m.mem (m.reg .rcx)).Of m'.iretq ∧
      ∀ m₁, Relation.ReflTransGen (ContextStep user service (m.reg .rdx) ptr lstar) m'.iretq m₁ →
        ∃ m₂, Machine.run (syscallEnter ptr) (m₁.syscall syscallStar lstar syscallFmask) = .done m₂ ∧
          ∀ m₃ : Machine, Kept (m.reg .rsp) (m.reg .rdx) m₂.mem m₃.mem → m₃.reg .rcx = m.reg .rdx →
            ∃ m₄, Machine.run switchToRestore m₃ = .done m₄ ∧ SwitchedBack m m₄ ∧
              m₄.ret.rip = m.mem.load64 (m.reg .rsp) := by
  have hword : Lib.Apart (below (m.reg .rsp) 752) 752 (m.reg .rdx) 8 := by
    have hsub : Lib.Apart (below (m.reg .rsp) 1448 + BitVec.ofNat 64 696) 752 (m.reg .rdx) 8 :=
      layout.rsp0_frame.sub (by decide) (by decide) (by decide) (by decide) (by decide)
    rwa [below_add (m.reg .rsp) (by decide)] at hsub
  obtain ⟨m', hrun, h⟩ := switchTo_switches m layout.top_aligned hrcx hregs hword hapart
  refine ⟨m', hrun, h.of, fun m₁ hsteps => ?_⟩
  -- Every state of the run is one in which the program runs above the frame.
  have hrunning : Running (m.reg .rsp) (m.reg .rdx) ptr stack m'.mem m₁ := by
    induction hsteps with
    | refl => exact h.running layout hptr
    | tail _ hstep ih => exact ContextStep.running layout huser hservice ih hstep
  obtain ⟨m₂, henter, -⟩ := syscallEnter_saved (m := m₁.syscall syscallStar lstar syscallFmask) hrunning.ptr
    layout.stack_aligned layout.stack_ptr
  refine ⟨m₂, henter, fun m₃ hkept₃ hrcx₃ => ?_⟩
  have hkept : Kept (m.reg .rsp) (m.reg .rdx) m'.mem m₃.mem :=
    (hrunning.kept.trans (syscallEnter_kept layout hrunning.ptr henter).2).trans hkept₃
  have hstored : m₃.mem.load64 (m₃.reg .rcx) = below (m.reg .rsp) 712 := by
    rw [hrcx₃, ← h.word]
    exact Ram.load64_congr fun x hx => hkept x (.inr hx)
  have hsaved : SavedContext (below (m.reg .rsp) 712) m m₃.mem :=
    h.saved.congr fun x hx => hkept x (.inl (Nat.lt_of_lt_of_le hx (by decide)))
  obtain ⟨m₄, hrun₄, hback, hmemory⟩ := switchToRestore_restores layout.top_aligned hstored hsaved
  refine ⟨m₄, hrun₄, hback, ?_⟩
  -- The return address is right above the frame.
  have hret : m₄.ret.rip = m₄.mem.load64 (m.reg .rsp) := congrArg m₄.mem.load64 (congrFun hback.reg .rsp)
  rw [hret]
  refine Ram.load64_congr fun x hx => ?_
  rw [← BitVec.sub_zero (m.reg .rsp)] at hx
  have hapart₀ : ∀ {d n : ℕ}, 0 + n ≤ d → 0 < n → d ≤ 752 → ¬ InBlock (below (m.reg .rsp) d) n x := fun hn hpos hd =>
    (apart_below (m.reg .rsp) (.inl hn) (by omega) (by decide) hpos (by decide) (by omega) (by decide)).not_inBlock hx
  calc m₄.mem x = m₃.mem x := hmemory x (hapart₀ (by decide) (by decide) (by decide))
    _ = m'.mem x := hkept x (.inl (inBlock_below hx (by decide) (by decide) (by decide)))
    _ = m.mem x := h.memory x (hapart₀ (by decide) (by decide) (by decide)) fun hin =>
      layout.rsp0_frame.not_inBlock hin (inBlock_below hx (by decide) (by decide) (by decide))

/-- A machine that calls `switch_to`. -/
def switching : Machine := ((entered.set .rcx 0x20000).set .rdx 0x30000).write 0x3000 0x60000

theorem switching_layout : KernelLayout (switching.reg .rsp) (switching.reg .rdx) 0x3000 0x60000 :=
  ⟨by decide, by decide, ⟨by decide, by decide⟩, ⟨by decide, by decide⟩, ⟨by decide, by decide⟩,
    ⟨by decide, by decide⟩, ⟨by decide, by decide⟩, ⟨by decide, by decide⟩⟩

/-- A program calls the kernel, is interrupted by the timer, and exits. -/
theorem switch_to_returns_exit : ∃ m' m₀ m₁ m₂ m₄, Machine.run switchTo switching = .done m' ∧
    ContextStep Eq Eq 0x30000 0x3000 0x1000 m'.iretq m₀ ∧ ContextStep Eq Eq 0x30000 0x3000 0x1000 m₀ m₁ ∧
    Machine.run (syscallEnter 0x3000) (m₁.syscall syscallStar 0x1000 syscallFmask) = .done m₂ ∧
    Machine.run switchToRestore (m₂.set .rcx 0x30000) = .done m₄ ∧ SwitchedBack switching m₄ := by
  have hptr : switching.mem.load64 0x3000 = 0x60000 := Ram.load64_store64 ..
  have hregs : Lib.Apart (below (switching.reg .rsp) 752) 752 (switching.reg .rcx) registersSize := ⟨by decide, by decide⟩
  have hword : Lib.Apart (below (switching.reg .rsp) 752) 752 (switching.reg .rdx) 8 := ⟨by decide, by decide⟩
  have hapart : Lib.Apart (switching.reg .rdx) 8 (switching.reg .rcx) registersSize := ⟨by decide, by decide⟩
  obtain ⟨m', hrun, -, h⟩ := @switch_to_returns Eq Eq 0x3000 0x60000 0x1000 switching switching_layout (by decide) hregs
    hapart hptr (fun _ _ h => h ▸ ⟨fun _ _ => rfl, rfl⟩) fun _ _ h => h ▸ ⟨rfl, fun _ _ => rfl, rfl⟩
  obtain ⟨m'', hrun', hswitched⟩ := switchTo_switches switching (by decide) (by decide) hregs hword hapart
  cases hrun.symm.trans hrun'
  have hrunning := hswitched.running switching_layout hptr
  obtain ⟨m₀, hcall, hcs⟩ : ∃ m₀, ContextStep Eq Eq 0x30000 0x3000 0x1000 m'.iretq m₀ ∧ m₀.cs = userCs :=
    ContextStep.exists_call switching_layout (fun _ => rfl) hrunning.ptr
  have huser : m₀.cs &&& 3 ≠ 0 := by
    rw [hcs]
    decide
  have herror : (none : Option Word).isSome ↔ HasErrorCode 0x30 := by decide
  obtain ⟨m₁, hinterrupt⟩ : ∃ m₁, ContextStep Eq Eq 0x30000 0x3000 0x1000 m₀ m₁ :=
    ContextStep.exists_interrupt herror (fun _ => rfl) huser 0x500000
  obtain ⟨m₂, henter, hback⟩ := h _ ((Relation.ReflTransGen.single hcall).tail hinterrupt)
  obtain ⟨m₄, hrun₄, hback₄, -⟩ := hback (m₂.set .rcx 0x30000) (fun _ _ => rfl) (Machine.set_reg_self ..)
  exact ⟨m', m₀, m₁, m₂, m₄, hrun, hcall, hinterrupt, henter, hrun₄, hback₄⟩

end Runs

end Attos.Asm
