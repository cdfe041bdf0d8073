import Attos.Lib.X64
import Attos.Lib.Word
import Attos.Pe.Unwind

/-!
# The macros for procedures

The assembler files write procedures with the macros of `pe.inc`. Each macro of a prologue emits an
instruction and puts the unwind code of it in front of a list. `win64_epilogue` reads that list and
emits the instructions that undo the prologue, and `win64_proc_end` writes it to the image, where
`unwind_once` reads it.

A prologue that is written with some care (`Frame.steps`) allocates a frame and saves registers in it
(`Built.steps`), and the epilogue that is made from its codes takes them back (`undoCode_restores`).
So procedures keep the registers that they save, whatever they do between (`procedure_keeps`).
-/

namespace Attos.Asm

open Lib Lib.X64

/-! ## Macros -/

/-- The macros of a prologue. -/
inductive PrologueMacro : Type where
  /-- `win64_prologue_push` -/
  | push (r : Reg)
  /-- `win64_prologue_alloc_unwind` -/
  | allocUnwind (n : ℕ)
  /-- `win64_prologue_alloc` -/
  | alloc (n : ℕ)
  /-- `win64_prologue_save_reg` -/
  | saveReg (offset : ℕ) (r : Reg)
  /-- `win64_prologue_push_machineframe_unwind` -/
  | pushMachineframeUnwind
  deriving DecidableEq

/-- The codes of `win64_prologue_alloc_unwind`. -/
def allocCodes (here n : ℕ) : Option (List ℕ) :=
  if n ≤ 128 then some [here, Pe.Uwop.allocSmall ||| u64 (sub64 (n / 8) 1 <<< 4)]
  else if n ≤ 512 <<< 10 then some [here, Pe.Uwop.allocLarge ||| 0, (n >>> 3) &&& 0xff, n >>> 11]
  else none

namespace PrologueMacro

/-- The instructions of a macro. -/
def code : PrologueMacro → List Instr
  | push r => [.push r]
  | allocUnwind _ => []
  | alloc n => [.sub .rsp n]
  | saveReg offset r => [.store .rsp offset r]
  | pushMachineframeUnwind => []

/-- The number of bytes that they are assembled to. -/
def size : PrologueMacro → ℕ
  | push r => if r.number < 8 then 1 else 2
  | allocUnwind _ => 0
  | alloc n => if n < 128 then 4 else 7
  | saveReg offset _ => if offset = 0 then 4 else if offset < 128 then 5 else 8
  | pushMachineframeUnwind => 0

/-- The values that a macro at the offset `here` puts in front of `win64_unwind_codes`, if it does
not report an error. -/
def codes (here : ℕ) : PrologueMacro → Option (List ℕ)
  | push r => some [here, Pe.Uwop.pushNonvol ||| (r.number <<< 4)]
  | allocUnwind n => allocCodes here n
  | alloc n => allocCodes here n
  | saveReg offset r =>
    if 0x10000 / 8 ≤ offset then none
    else some [here, Pe.Uwop.saveNonvol ||| (r.number <<< 4), (offset >>> 3) &&& 0xff, offset >>> 11]
  | pushMachineframeUnwind => some [here, Pe.Uwop.pushMachframe ||| 0]

end PrologueMacro

/-- `win64_unwind_codes` behind some macros, from what it is before them. Each macro is at an offset in
the procedure. -/
def unwindCodes : List ℕ → List (ℕ × PrologueMacro) → Option (List ℕ)
  | acc, [] => some acc
  | acc, (here, op) :: prologue => do
    let codes ← op.codes here
    unwindCodes (codes ++ acc) prologue

/-- The macros of a prologue that has no other instructions in it. -/
def layout : ℕ → List PrologueMacro → List (ℕ × PrologueMacro)
  | _, [] => []
  | here, op :: ops => (here, op) :: layout (here + op.size) ops

@[simp] theorem map_snd_layout (here : ℕ) (ops : List PrologueMacro) : (layout here ops).map Prod.snd = ops := by
  induction ops generalizing here with
  | nil => rfl
  | cons op ops ih => rw [layout, List.map_cons, ih]

/-- The instructions of a prologue. -/
def prologueCode (ops : List PrologueMacro) : List Instr := ops.flatMap PrologueMacro.code

/-- `win64_restore`, with the passes of `%rep` that are left. When none is left, it is through. -/
def win64Restore : ℕ → List ℕ → Option (List Instr)
  | _, [] => some []
  | 0, _ :: _ => some []
  | passes + 1, _ :: op :: rest =>
    if op &&& 15 = Pe.Uwop.pushNonvol then do
      let r ← Reg.ofNumber (op >>> 4)
      let code ← win64Restore passes rest
      pure (.pop r :: code)
    else if op &&& 15 = Pe.Uwop.allocSmall then do
      let code ← win64Restore passes rest
      pure (.add .rsp (((op >>> 4) + 1) * 8) :: code)
    else if op &&& 15 = Pe.Uwop.allocLarge then
      match rest with
      | low :: high :: rest =>
        if op >>> 4 ≠ 0 then none
        else do
          let code ← win64Restore passes rest
          pure (.add .rsp ((low + high * 256) * 8) :: code)
      | _ => none
    else if op &&& 15 = Pe.Uwop.saveNonvol then
      match rest with
      | low :: high :: rest => do
        let r ← Reg.ofNumber (op >>> 4)
        let code ← win64Restore passes rest
        pure (.load r .rsp ((low + high * 256) * 8) :: code)
      | _ => none
    else if op &&& 15 = Pe.Uwop.pushMachframe then
      if op >>> 4 ≠ 0 then none else win64Restore passes rest
    else none
  | _ + 1, [_] => none

/-- `win64_epilogue`. The macro wants at least one code. -/
def win64Epilogue (prologue : List (ℕ × PrologueMacro)) : Option (List Instr) := do
  let codes ← unwindCodes [] prologue
  if codes = [] then none else win64Restore 100 codes

/-! ## Frames -/

/-- What a prologue leaves on the stack. Places are given by how far they are below the stack pointer
that the epilogue goes back to. -/
structure Frame : Type where
  /-- the number of bytes -/
  depth : ℕ
  /-- how many of them were on the stack when the procedure was entered -/
  unwound : ℕ
  /-- where the registers are -/
  saved : List (ℕ × Reg)

namespace Frame

/-- Nothing is on the stack. -/
def empty : Frame := ⟨0, 0, []⟩

/-- The register is saved. -/
def Saves (f : Frame) (r : Reg) : Prop := r ∈ f.saved.map Prod.snd

instance (f : Frame) (r : Reg) : Decidable (f.Saves r) := inferInstanceAs (Decidable (r ∈ f.saved.map Prod.snd))

/-- The register can be saved: it is not the stack pointer, and it is not saved yet. -/
def Free (f : Frame) (r : Reg) : Prop := r ≠ .rsp ∧ ¬ f.Saves r

instance (f : Frame) (r : Reg) : Decidable (f.Free r) := inferInstanceAs (Decidable (r ≠ .rsp ∧ ¬ f.Saves r))

/-- The macros have codes for this many bytes. -/
def Allocates (n : ℕ) : Prop := n % 8 = 0 ∧ 8 ≤ n ∧ n ≤ 512 <<< 10

instance (n : ℕ) : Decidable (Allocates n) := inferInstanceAs (Decidable (n % 8 = 0 ∧ 8 ≤ n ∧ n ≤ 512 <<< 10))

/-- The procedure has done nothing yet. -/
def Untouched (f : Frame) : Prop := f.depth = f.unwound ∧ f.saved = []

instance (f : Frame) : Decidable f.Untouched := inferInstanceAs (Decidable (f.depth = f.unwound ∧ f.saved = []))

/-- The place `offset` above the stack pointer is one that the procedure allocated and does not use. -/
def Unused (f : Frame) (offset : ℕ) : Prop :=
  offset % 8 = 0 ∧ offset < 0x10000 / 8 ∧ offset + 8 + f.unwound ≤ f.depth ∧ ∀ s ∈ f.saved, s.1 ≠ f.depth - offset

instance (f : Frame) (offset : ℕ) : Decidable (f.Unused offset) :=
  inferInstanceAs (Decidable (offset % 8 = 0 ∧ offset < 0x10000 / 8 ∧ offset + 8 + f.unwound ≤ f.depth ∧
    ∀ s ∈ f.saved, s.1 ≠ f.depth - offset))

/-- The frame behind a macro, if the macro is written with care. -/
def step (f : Frame) : PrologueMacro → Option Frame
  | .push r => if f.Free r then some ⟨f.depth + 8, f.unwound, (f.depth + 8, r) :: f.saved⟩ else none
  | .allocUnwind n =>
    if Allocates n ∧ f.Untouched then some ⟨f.depth + n, f.unwound + n, f.saved⟩ else none
  | .alloc n => if Allocates n then some ⟨f.depth + n, f.unwound, f.saved⟩ else none
  | .saveReg offset r =>
    if f.Free r ∧ f.Unused offset then some ⟨f.depth, f.unwound, (f.depth - offset, r) :: f.saved⟩ else none
  | .pushMachineframeUnwind => some f

/-- The frame behind some macros. -/
def steps (f : Frame) (ops : List PrologueMacro) : Option Frame := ops.foldlM step f

/-- The places in a frame are words that do not overlap. -/
structure Valid (f : Frame) : Prop where
  /-- the stack is aligned -/
  aligned : f.depth % 8 = 0
  /-- what was there is part of it -/
  unwound_le : f.unwound ≤ f.depth
  /-- places are words that the procedure allocated -/
  words : ∀ s ∈ f.saved, s.1 % 8 = 0 ∧ f.unwound + 8 ≤ s.1 ∧ s.1 ≤ f.depth
  /-- they are different -/
  places : (f.saved.map Prod.fst).Nodup
  /-- registers are saved once -/
  once : (f.saved.map Prod.snd).Nodup
  /-- the stack pointer is not -/
  rsp : ¬ f.Saves .rsp

section Steps

variable {f f' : Frame} {op : PrologueMacro} {ops : List PrologueMacro}

@[simp] theorem steps_nil : f.steps [] = some f := rfl

theorem steps_cons : f.steps (op :: ops) = some f' ↔ ∃ g, f.step op = some g ∧ g.steps ops = some f' := by
  rw [steps, List.foldlM_cons]
  exact Option.bind_eq_some_iff

theorem steps_snoc : f.steps (ops ++ [op]) = some f' ↔ ∃ g, f.steps ops = some g ∧ g.step op = some f' := by
  rw [steps, List.foldlM_append]
  refine Option.bind_eq_some_iff.trans (exists_congr fun g => and_congr_right fun _ => ?_)
  rw [List.foldlM_cons]
  refine Option.bind_eq_some_iff.trans ⟨?_, fun h => ⟨f', h, rfl⟩⟩
  rintro ⟨g', hg, heq⟩
  cases heq
  exact hg

theorem step_push {r : Reg} : f.step (.push r) = some f' ↔
    f.Free r ∧ f' = ⟨f.depth + 8, f.unwound, (f.depth + 8, r) :: f.saved⟩ := by
  rw [step]
  split_ifs with h <;> simp [h, eq_comm]

theorem step_alloc {n : ℕ} : f.step (.alloc n) = some f' ↔
    Allocates n ∧ f' = ⟨f.depth + n, f.unwound, f.saved⟩ := by
  rw [step]
  split_ifs with h <;> simp [h, eq_comm]

theorem step_allocUnwind {n : ℕ} : f.step (.allocUnwind n) = some f' ↔
    (Allocates n ∧ f.Untouched) ∧ f' = ⟨f.depth + n, f.unwound + n, f.saved⟩ := by
  rw [step]
  split_ifs with h <;> simp [h, eq_comm]

theorem step_saveReg {offset : ℕ} {r : Reg} : f.step (.saveReg offset r) = some f' ↔
    (f.Free r ∧ f.Unused offset) ∧ f' = ⟨f.depth, f.unwound, (f.depth - offset, r) :: f.saved⟩ := by
  rw [step]
  split_ifs with h <;> simp [h, eq_comm]

theorem step_machineframe : f.step .pushMachineframeUnwind = some f' ↔ f' = f := by
  rw [step, Option.some.injEq, eq_comm]

theorem empty_valid : empty.Valid := ⟨rfl, le_rfl, nofun, .nil, .nil, nofun⟩

/-- A register is saved in a new word of the frame. -/
theorem Valid.save {d place : ℕ} {r : Reg} (h : f.Valid) (hfree : f.Free r) (hd : d % 8 = 0) (hle : f.depth ≤ d)
    (hplace : place % 8 = 0 ∧ f.unwound + 8 ≤ place ∧ place ≤ d) (hnew : ∀ s ∈ f.saved, s.1 ≠ place) :
    Valid ⟨d, f.unwound, (place, r) :: f.saved⟩ := by
  refine ⟨hd, h.unwound_le.trans hle, ?_, ?_, ?_, ?_⟩
  · intro s hs
    obtain rfl | hs := List.mem_cons.mp hs
    · exact hplace
    · have hword := h.words s hs
      exact ⟨hword.1, hword.2.1, hword.2.2.trans hle⟩
  · refine List.nodup_cons.mpr ⟨?_, h.places⟩
    intro hmem
    obtain ⟨s, hs, heq⟩ := List.mem_map.mp hmem
    exact hnew s hs heq
  · exact List.nodup_cons.mpr ⟨hfree.2, h.once⟩
  · intro hmem
    obtain heq | hmem := List.mem_cons.mp hmem
    · exact hfree.1 heq.symm
    · exact h.rsp hmem

/-- **One macro** keeps the frame valid. -/
theorem Valid.step (h : f.Valid) (hstep : f.step op = some f') : f'.Valid := by
  have haligned := h.aligned
  have hunwound := h.unwound_le
  cases op with
  | push r =>
    obtain ⟨hfree, rfl⟩ := step_push.mp hstep
    refine h.save hfree (by omega) (Nat.le_add_right ..) (by omega) ?_
    intro s hs
    have hword := h.words s hs
    omega
  | allocUnwind n =>
    obtain ⟨⟨halloc, -, hsaved⟩, rfl⟩ := step_allocUnwind.mp hstep
    have hn := halloc.1
    refine ⟨?_, Nat.add_le_add_right hunwound n, ?_, h.places, h.once, h.rsp⟩
    · change (f.depth + n) % 8 = 0
      omega
    · intro s hs
      have hnone : s ∈ f.saved := hs
      rw [hsaved] at hnone
      cases hnone
  | alloc n =>
    obtain ⟨halloc, rfl⟩ := step_alloc.mp hstep
    have hn := halloc.1
    refine ⟨?_, hunwound.trans (Nat.le_add_right ..), ?_, h.places, h.once, h.rsp⟩
    · change (f.depth + n) % 8 = 0
      omega
    · intro s hs
      have hword := h.words s hs
      exact ⟨hword.1, hword.2.1, hword.2.2.trans (Nat.le_add_right ..)⟩
  | saveReg offset r =>
    obtain ⟨⟨hfree, hoffset, -, hin, hnew⟩, rfl⟩ := step_saveReg.mp hstep
    exact h.save hfree haligned le_rfl (by omega) hnew
  | pushMachineframeUnwind =>
    obtain rfl := step_machineframe.mp hstep
    exact h

/-- A macro makes the frame larger, by half a megabyte at most. -/
theorem step_depth (hstep : f.step op = some f') : f.depth ≤ f'.depth ∧ f'.depth ≤ f.depth + 2 ^ 19 := by
  cases op with
  | push r =>
    obtain ⟨-, rfl⟩ := step_push.mp hstep
    exact ⟨Nat.le_add_right .., Nat.add_le_add_left (by decide) _⟩
  | allocUnwind n =>
    obtain ⟨⟨halloc, -⟩, rfl⟩ := step_allocUnwind.mp hstep
    exact ⟨Nat.le_add_right .., Nat.add_le_add_left halloc.2.2 _⟩
  | alloc n =>
    obtain ⟨halloc, rfl⟩ := step_alloc.mp hstep
    exact ⟨Nat.le_add_right .., Nat.add_le_add_left halloc.2.2 _⟩
  | saveReg offset r =>
    obtain ⟨-, rfl⟩ := step_saveReg.mp hstep
    exact ⟨le_rfl, Nat.le_add_right ..⟩
  | pushMachineframeUnwind =>
    obtain rfl := step_machineframe.mp hstep
    exact ⟨le_rfl, Nat.le_add_right ..⟩

/-- Once the procedure has done something, nothing more can have been there before. -/
theorem step_unwound (htouched : ¬ f.Untouched) (hle : f.unwound ≤ f.depth) (hstep : f.step op = some f') :
    f'.unwound = f.unwound ∧ ¬ f'.Untouched := by
  cases op with
  | push r =>
    obtain ⟨-, rfl⟩ := step_push.mp hstep
    exact ⟨rfl, fun h => absurd h.2 (List.cons_ne_nil _ _)⟩
  | allocUnwind n =>
    obtain ⟨⟨-, huntouched⟩, -⟩ := step_allocUnwind.mp hstep
    exact absurd huntouched htouched
  | alloc n =>
    obtain ⟨halloc, rfl⟩ := step_alloc.mp hstep
    refine ⟨rfl, fun h => ?_⟩
    have heq : f.depth + n = f.unwound := h.1
    have hn := halloc.2.1
    omega
  | saveReg offset r =>
    obtain ⟨-, rfl⟩ := step_saveReg.mp hstep
    exact ⟨rfl, fun h => absurd h.2 (List.cons_ne_nil _ _)⟩
  | pushMachineframeUnwind =>
    obtain rfl := step_machineframe.mp hstep
    exact ⟨rfl, htouched⟩

/-- **The macros of a prologue** keep the frame valid. -/
theorem Valid.steps (h : f.Valid) (hsteps : f.steps ops = some f') : f'.Valid := by
  induction ops generalizing f with
  | nil => cases hsteps; exact h
  | cons op ops ih =>
    obtain ⟨g, hstep, hsteps⟩ := steps_cons.mp hsteps
    exact ih (h.step hstep) hsteps

theorem steps_depth (hsteps : f.steps ops = some f') :
    f.depth ≤ f'.depth ∧ f'.depth ≤ f.depth + ops.length * 2 ^ 19 := by
  induction ops generalizing f with
  | nil => cases hsteps; exact ⟨le_rfl, Nat.le_add_right ..⟩
  | cons op ops ih =>
    obtain ⟨g, hstep, hsteps⟩ := steps_cons.mp hsteps
    have hfirst := step_depth hstep
    have hrest := ih hsteps
    rw [List.length_cons]
    omega

theorem step_unwound_le (hstep : f.step op = some f') : f.unwound ≤ f'.unwound := by
  cases op with
  | push r =>
    obtain ⟨-, rfl⟩ := step_push.mp hstep
    exact le_rfl
  | allocUnwind n =>
    obtain ⟨-, rfl⟩ := step_allocUnwind.mp hstep
    exact Nat.le_add_right ..
  | alloc n =>
    obtain ⟨-, rfl⟩ := step_alloc.mp hstep
    exact le_rfl
  | saveReg offset r =>
    obtain ⟨-, rfl⟩ := step_saveReg.mp hstep
    exact le_rfl
  | pushMachineframeUnwind =>
    obtain rfl := step_machineframe.mp hstep
    exact le_rfl

theorem steps_unwound_le (hsteps : f.steps ops = some f') : f.unwound ≤ f'.unwound := by
  induction ops generalizing f with
  | nil => cases hsteps; exact le_rfl
  | cons op ops ih =>
    obtain ⟨g, hstep, hsteps⟩ := steps_cons.mp hsteps
    exact (step_unwound_le hstep).trans (ih hsteps)

theorem steps_unwound (h : f.Valid) (htouched : ¬ f.Untouched) (hsteps : f.steps ops = some f') :
    f'.unwound = f.unwound := by
  induction ops generalizing f with
  | nil => cases hsteps; rfl
  | cons op ops ih =>
    obtain ⟨g, hstep, hsteps⟩ := steps_cons.mp hsteps
    obtain ⟨heq, htouched⟩ := step_unwound htouched h.unwound_le hstep
    exact (ih (h.step hstep) htouched hsteps).trans heq

end Steps

end Frame

/-! ## The prologue -/

/-- A word below an address. -/
abbrev below (top : Word) (d : ℕ) : Word := top - BitVec.ofNat 64 d

/-- The machine `m'` has built the frame `f` below `top`, from the machine `m` that entered the
procedure with `u` bytes on the stack. -/
structure Built (top : Word) (m : Machine) (u : ℕ) (f : Frame) (m' : Machine) : Prop where
  /-- the stack pointer is at the end of the frame -/
  rsp : m'.reg .rsp = below top (max f.depth u)
  /-- the other registers are as they were -/
  reg : ∀ r, r ≠ .rsp → m'.reg r = m.reg r
  /-- some are saved -/
  saved : ∀ s ∈ f.saved, m'.mem.load64 (below top s.1) = m.reg s.2
  /-- memory is written in the frame only -/
  memory : ∀ x, ¬ InBlock (below top (max f.depth u)) (max f.depth u - u) x → m'.mem x = m.mem x
  /-- the rest of the machine is as it was -/
  rest : m'.fx = m.fx ∧ m'.cs = m.cs ∧ m'.ss = m.ss

section Prologue

variable {top : Word} {m m' : Machine} {u : ℕ} {f g : Frame} {op : PrologueMacro} {ops : List PrologueMacro}

/-- A place is the word that is stored there, and the other words are not changed. -/
theorem saved_store {mem : Ram} {v : Reg → Word} {place : ℕ} {r : Reg}
    (hsaved : ∀ s ∈ f.saved, mem.load64 (below top s.1) = v s.2)
    (hwords : ∀ s ∈ f.saved, s.1 % 8 = 0 ∧ s.1 ≤ 2 ^ 62) (hplace : place % 8 = 0 ∧ place ≤ 2 ^ 62)
    (hnew : ∀ s ∈ f.saved, s.1 ≠ place) :
    ∀ s ∈ (place, r) :: f.saved, (mem.store64 (below top place) (v r)).load64 (below top s.1) = v s.2 := by
  intro s hs
  obtain rfl | hs := List.mem_cons.mp hs
  · exact Ram.load64_store64 ..
  · have hword := hwords s hs
    have hne := hnew s hs
    have hapart : Lib.Apart (below top place) 8 (below top s.1) 8 :=
      apart_below top (by omega) hplace.2 hword.2 (by decide) (by decide) (by decide) (by decide)
    rw [Ram.load64_store64_apart hapart]
    exact hsaved s hs

theorem below_add {d k : ℕ} (top : Word) (hk : k ≤ d) : below top d + BitVec.ofNat 64 k = below top (d - k) := by
  rw [below, below]
  conv_lhs => rw [← Nat.sub_add_cancel hk, BitVec.ofNat_add]
  grind

theorem below_sub {d k : ℕ} (top : Word) : below top d - BitVec.ofNat 64 k = below top (d + k) := by
  rw [below, below, BitVec.ofNat_add]
  grind

/-- A register is saved. -/
theorem Built.save {m'' : Machine} {place d : ℕ} {r : Reg} (h : Built top m u g m') (hvalid : g.Valid)
    (hu : u ≤ g.depth) (hd : g.depth ≤ d) (hmax : d ≤ 2 ^ 62) (hplace : place % 8 = 0 ∧ u + 8 ≤ place ∧ place ≤ d)
    (hnew : ∀ s ∈ g.saved, s.1 ≠ place) (hr : r ≠ .rsp) (hrsp : m''.reg .rsp = below top d)
    (hreg : ∀ r, r ≠ .rsp → m''.reg r = m'.reg r)
    (hmem : m''.mem = m'.mem.store64 (below top place) (m'.reg r))
    (hrest : m''.fx = m'.fx ∧ m''.cs = m'.cs ∧ m''.ss = m'.ss) :
    Built top m u ⟨d, g.unwound, (place, r) :: g.saved⟩ m'' := by
  have hle : max d u = d := max_eq_left (hu.trans hd)
  have hword : ∀ s ∈ g.saved, s.1 % 8 = 0 ∧ s.1 ≤ 2 ^ 62 := by
    intro s hs
    have hword := hvalid.words s hs
    exact ⟨hword.1, hword.2.2.trans (hd.trans hmax)⟩
  refine ⟨?_, fun r hr => (hreg r hr).trans (h.reg r hr), ?_, ?_, ?_⟩
  · change m''.reg .rsp = below top (max d u)
    rw [hle, hrsp]
  · rw [hmem, h.reg r hr]
    exact saved_store h.saved hword ⟨hplace.1, hplace.2.2.trans hmax⟩ hnew
  · intro x hx
    change ¬ InBlock (below top (max d u)) (max d u - u) x at hx
    rw [hle] at hx
    have hplaced : ¬ InBlock (below top place) 8 x :=
      fun hin => hx (inBlock_below hin hplace.2.2 (by omega) (by omega))
    have hold : ¬ InBlock (below top (max g.depth u)) (max g.depth u - u) x := by
      rw [max_eq_left hu]
      exact fun hin => hx (inBlock_below hin hd (by omega) (by omega))
    rw [hmem, Ram.store64, Ram.store_of_not_inBlock hplaced]
    exact h.memory x hold
  · exact ⟨hrest.1.trans h.rest.1, hrest.2.1.trans h.rest.2.1, hrest.2.2.trans h.rest.2.2⟩

/-- **One macro** is executed. -/
theorem Built.step (h : Built top m u g m') (hvalid : g.Valid) (hstep : g.step op = some f) (hmax : f.depth ≤ 2 ^ 62)
    (hle : f.unwound ≤ u) (htouched : ¬ f.Untouched → u = f.unwound) :
    ∃ m'', Machine.run op.code m' = .done m'' ∧ Built top m u f m'' := by
  have hunwound := hvalid.unwound_le
  have hrsp := h.rsp
  cases op with
  | push r =>
    obtain ⟨hfree, rfl⟩ := Frame.step_push.mp hstep
    have hu : u = g.unwound := htouched fun h => absurd h.2 (List.cons_ne_nil _ _)
    have haligned := hvalid.aligned
    have hplace : (g.depth + 8) % 8 = 0 ∧ u + 8 ≤ g.depth + 8 ∧ g.depth + 8 ≤ g.depth + 8 := by omega
    have hnew : ∀ s ∈ g.saved, s.1 ≠ g.depth + 8 := by
      intro s hs
      have hword := hvalid.words s hs
      omega
    rw [max_eq_left (by omega)] at hrsp
    have hpushed : m'.reg .rsp - 8 = below top (g.depth + 8) := by
      rw [hrsp]
      exact below_sub top
    refine ⟨m'.pushWord (m'.reg r), rfl, h.save hvalid (by omega) (Nat.le_add_right ..) hmax hplace hnew hfree.1 ?_ ?_ ?_ ⟨rfl, rfl, rfl⟩⟩
    · rw [Machine.pushWord, Machine.write_reg, Machine.set_reg_self, hpushed]
    · intro r' hr'
      rw [Machine.pushWord, Machine.write_reg, Machine.set_reg_ne _ _ hr']
    · rw [Machine.pushWord, Machine.write_mem, Machine.set_mem, hpushed]
  | allocUnwind n =>
    obtain ⟨⟨-, hdepth, -⟩, rfl⟩ := Frame.step_allocUnwind.mp hstep
    change g.unwound + n ≤ u at hle
    have hmax₁ : max g.depth u = u := max_eq_right (by omega)
    have hmax₂ : max (g.depth + n) u = u := max_eq_right (by omega)
    refine ⟨m', rfl, ⟨?_, h.reg, h.saved, ?_, h.rest⟩⟩
    · change m'.reg .rsp = below top (max (g.depth + n) u)
      rw [hmax₂, hrsp, hmax₁]
    · change ∀ x, ¬ InBlock (below top (max (g.depth + n) u)) (max (g.depth + n) u - u) x → m'.mem x = m.mem x
      rw [hmax₂, ← hmax₁]
      intro x hx
      refine h.memory x ?_
      rwa [hmax₁] at hx ⊢
  | alloc n =>
    obtain ⟨halloc, rfl⟩ := Frame.step_alloc.mp hstep
    have hn := halloc.2.1
    have hu : u = g.unwound := by
      refine htouched fun h => ?_
      have heq : g.depth + n = g.unwound := h.1
      omega
    have hmax₁ : max g.depth u = g.depth := max_eq_left (by omega)
    have hmax₂ : max (g.depth + n) u = g.depth + n := max_eq_left (by omega)
    change g.depth + n ≤ 2 ^ 62 at hmax
    refine ⟨_, rfl, ⟨?_, ?_, h.saved, ?_, h.rest⟩⟩
    · change (m'.set .rsp (m'.reg .rsp - BitVec.ofNat 64 n)).reg .rsp = below top (max (g.depth + n) u)
      rw [Machine.set_reg_self, hrsp, hmax₁, hmax₂, below_sub]
    · intro r hr
      exact (Machine.set_reg_ne _ _ hr).trans (h.reg r hr)
    · change ∀ x, ¬ InBlock (below top (max (g.depth + n) u)) (max (g.depth + n) u - u) x → m'.mem x = m.mem x
      rw [hmax₂]
      intro x hx
      refine h.memory x fun hin => hx ?_
      rw [hmax₁] at hin
      exact inBlock_below hin (Nat.le_add_right ..) (by omega) (by omega)
  | saveReg offset r =>
    obtain ⟨⟨hfree, hoffset, -, hin, hnew⟩, rfl⟩ := Frame.step_saveReg.mp hstep
    have hu : u = g.unwound := htouched fun h => absurd h.2 (List.cons_ne_nil _ _)
    have haligned := hvalid.aligned
    have hplace : (g.depth - offset) % 8 = 0 ∧ u + 8 ≤ g.depth - offset ∧ g.depth - offset ≤ g.depth := by omega
    rw [max_eq_left (by omega)] at hrsp
    refine ⟨_, rfl, h.save hvalid (by omega) le_rfl hmax hplace hnew hfree.1 hrsp (fun _ _ => rfl) ?_ ⟨rfl, rfl, rfl⟩⟩
    have haddr : m'.addr .rsp offset = below top (g.depth - offset) := by
      rw [Machine.addr, hrsp, below_add top (by omega)]
    rw [Machine.write_mem, haddr]
  | pushMachineframeUnwind =>
    obtain rfl := Frame.step_machineframe.mp hstep
    exact ⟨m', rfl, h⟩

/-- **The prologue** builds the frame. -/
theorem Built.steps (h : Built top m u g m') (hvalid : g.Valid) (hsteps : g.steps ops = some f)
    (hmax : f.depth ≤ 2 ^ 62) (hu : u = f.unwound) :
    ∃ m'', Machine.run (prologueCode ops) m' = .done m'' ∧ Built top m u f m'' := by
  induction ops generalizing g m' with
  | nil => cases hsteps; exact ⟨m', rfl, h⟩
  | cons op ops ih =>
    obtain ⟨g', hstep, hsteps⟩ := Frame.steps_cons.mp hsteps
    have hvalid' := hvalid.step hstep
    have hle : g'.unwound ≤ u := hu ▸ Frame.steps_unwound_le hsteps
    have htouched : ¬ g'.Untouched → u = g'.unwound :=
      fun h => hu.trans (Frame.steps_unwound hvalid' h hsteps)
    obtain ⟨m₁, hrun, h₁⟩ := h.step hvalid hstep ((Frame.steps_depth hsteps).1.trans hmax) hle htouched
    obtain ⟨m₂, hrest, h₂⟩ := ih h₁ hvalid' hsteps
    refine ⟨m₂, ?_, h₂⟩
    rw [prologueCode, List.flatMap_cons, Machine.run_append, hrun]
    exact hrest

end Prologue

/-! ## The epilogue -/

/-- The instructions that undo a macro. -/
def PrologueMacro.undo : PrologueMacro → List Instr
  | push r => [.pop r]
  | allocUnwind n => [.add .rsp n]
  | alloc n => [.add .rsp n]
  | saveReg offset r => [.load r .rsp offset]
  | pushMachineframeUnwind => []

/-- The instructions that undo a prologue: the last macro comes first. -/
def undoCode (ops : List PrologueMacro) : List Instr := ops.reverse.flatMap PrologueMacro.undo

/-- The machine `m'` has given up the frame `f` below `top`, from the machine `m`. -/
structure Restored (top : Word) (f : Frame) (m m' : Machine) : Prop where
  /-- the stack pointer is back -/
  rsp : m'.reg .rsp = top
  /-- the saved registers are loaded -/
  saved : ∀ s ∈ f.saved, m'.reg s.2 = m.mem.load64 (below top s.1)
  /-- the other ones are as they were -/
  reg : ∀ r, r ≠ .rsp → ¬ f.Saves r → m'.reg r = m.reg r
  /-- the rest of the machine is as it was -/
  rest : m'.mem = m.mem ∧ m'.fx = m.fx ∧ m'.cs = m.cs ∧ m'.ss = m.ss

section Epilogue

variable {top : Word} {m m₁ m' : Machine} {f g : Frame} {op : PrologueMacro} {ops : List PrologueMacro}

theorem undoCode_cons : undoCode (op :: ops) = undoCode ops ++ op.undo := by
  rw [undoCode, List.reverse_cons, List.flatMap_append, List.flatMap_singleton, undoCode]

theorem undoCode_snoc : undoCode (ops ++ [op]) = op.undo ++ undoCode ops := by
  rw [undoCode, List.reverse_append, List.reverse_singleton, List.singleton_append, List.flatMap_cons, undoCode]

/-- The frame is given up after one register of it was loaded. -/
theorem Restored.load {r : Reg} {place d : ℕ} (h : Restored top g m₁ m') (hfree : g.Free r)
    (hloaded : m₁.reg r = m.mem.load64 (below top place)) (hreg : ∀ r', r' ≠ .rsp → r' ≠ r → m₁.reg r' = m.reg r')
    (hrest : m₁.mem = m.mem ∧ m₁.fx = m.fx ∧ m₁.cs = m.cs ∧ m₁.ss = m.ss) :
    Restored top ⟨d, g.unwound, (place, r) :: g.saved⟩ m m' := by
  obtain ⟨hmem, hfx, hcs, hss⟩ := hrest
  refine ⟨h.rsp, ?_, ?_, h.rest.1.trans hmem, h.rest.2.1.trans hfx, h.rest.2.2.1.trans hcs, h.rest.2.2.2.trans hss⟩
  · intro s hs
    obtain rfl | hs := List.mem_cons.mp hs
    · exact (h.reg r hfree.1 hfree.2).trans hloaded
    · exact (h.saved s hs).trans (by rw [hmem])
  · intro r' hr' hnot
    have hne : r' ≠ r := fun heq => hnot (heq ▸ List.mem_cons_self)
    exact (h.reg r' hr' fun hs => hnot (List.mem_cons_of_mem _ hs)).trans (hreg r' hr' hne)

/-- **One macro** is undone, and the others behind it. -/
theorem Restored.step (hstep : g.step op = some f) (hvalid : g.Valid) (hrsp : m.reg .rsp = below top f.depth)
    (ih : ∀ m, m.reg .rsp = below top g.depth → ∃ m', Machine.run (undoCode ops) m = .done m' ∧ Restored top g m m') :
    ∃ m', Machine.run (op.undo ++ undoCode ops) m = .done m' ∧ Restored top f m m' := by
  cases op with
  | push r =>
    obtain ⟨hfree, rfl⟩ := Frame.step_push.mp hstep
    have hpopped : ((m.drop).set r m.top).reg .rsp = below top g.depth := by
      rw [Machine.set_reg_ne _ _ (Ne.symm hfree.1), Machine.drop, Machine.set_reg_self, hrsp]
      exact below_add top (Nat.le_add_left ..)
    obtain ⟨m', hrun, h⟩ := ih _ hpopped
    refine ⟨m', ?_, h.load hfree ?_ ?_ ⟨rfl, rfl, rfl, rfl⟩⟩
    · exact hrun
    · rw [Machine.set_reg_self, Machine.top, hrsp]
    · intro r' hr' hne
      rw [Machine.set_reg_ne _ _ hne, Machine.drop, Machine.set_reg_ne _ _ hr']
  | allocUnwind n =>
    obtain ⟨-, rfl⟩ := Frame.step_allocUnwind.mp hstep
    have hadded : (m.set .rsp (m.reg .rsp + BitVec.ofNat 64 n)).reg .rsp = below top g.depth := by
      rw [Machine.set_reg_self, hrsp]
      exact (below_add top (Nat.le_add_left ..)).trans (congrArg (below top) (Nat.add_sub_cancel ..))
    obtain ⟨m', hrun, h⟩ := ih { m.set .rsp (m.reg .rsp + BitVec.ofNat 64 n) with
      flags := addFlags m.flags (m.reg .rsp) (BitVec.ofNat 64 n) } hadded
    exact ⟨m', hrun, h.rsp, h.saved, fun r hr hnot => (h.reg r hr hnot).trans (Machine.set_reg_ne _ _ hr), h.rest⟩
  | alloc n =>
    obtain ⟨-, rfl⟩ := Frame.step_alloc.mp hstep
    have hadded : (m.set .rsp (m.reg .rsp + BitVec.ofNat 64 n)).reg .rsp = below top g.depth := by
      rw [Machine.set_reg_self, hrsp]
      exact (below_add top (Nat.le_add_left ..)).trans (congrArg (below top) (Nat.add_sub_cancel ..))
    obtain ⟨m', hrun, h⟩ := ih { m.set .rsp (m.reg .rsp + BitVec.ofNat 64 n) with
      flags := addFlags m.flags (m.reg .rsp) (BitVec.ofNat 64 n) } hadded
    exact ⟨m', hrun, h.rsp, h.saved, fun r hr hnot => (h.reg r hr hnot).trans (Machine.set_reg_ne _ _ hr), h.rest⟩
  | saveReg offset r =>
    obtain ⟨⟨hfree, -, -, hin, -⟩, rfl⟩ := Frame.step_saveReg.mp hstep
    change m.reg .rsp = below top g.depth at hrsp
    have haddr : m.addr .rsp offset = below top (g.depth - offset) := by
      rw [Machine.addr, hrsp]
      exact below_add top (by omega)
    have hloaded : (m.set r (m.mem.load64 (m.addr .rsp offset))).reg .rsp = below top g.depth := by
      rw [Machine.set_reg_ne _ _ (Ne.symm hfree.1), hrsp]
    obtain ⟨m', hrun, h⟩ := ih _ hloaded
    refine ⟨m', hrun, h.load hfree ?_ ?_ ⟨rfl, rfl, rfl, rfl⟩⟩
    · rw [Machine.set_reg_self, haddr]
    · exact fun r' _ hne => Machine.set_reg_ne _ _ hne
  | pushMachineframeUnwind =>
    obtain rfl := Frame.step_machineframe.mp hstep
    exact ih m hrsp

/-- **The macros of a prologue** are undone. -/
theorem undoCode_restores (hsteps : Frame.empty.steps ops = some f) (hrsp : m.reg .rsp = below top f.depth) :
    ∃ m', Machine.run (undoCode ops) m = .done m' ∧ Restored top f m m' := by
  induction ops using List.reverseRecOn generalizing f m with
  | nil =>
    cases hsteps
    refine ⟨m, rfl, ?_, nofun, fun _ _ _ => rfl, rfl, rfl, rfl, rfl⟩
    rw [hrsp]
    exact BitVec.sub_zero top
  | append_singleton ops op ih =>
    obtain ⟨g, hsteps, hstep⟩ := Frame.steps_snoc.mp hsteps
    rw [undoCode_snoc]
    exact Restored.step hstep (Frame.empty_valid.steps hsteps) hrsp fun m hrsp => ih hsteps hrsp

/-! ## The codes -/

theorem shift_and_255 (n : ℕ) (hn : n % 8 = 0) : (((n >>> 3) &&& 0xff) + (n >>> 11) * 256) * 8 = n := by
  have hand : (n >>> 3) &&& 0xff = n >>> 3 % 256 := Nat.and_two_pow_sub_one_eq_mod (n >>> 3) 8
  rw [hand, Nat.shiftRight_eq_div_pow, Nat.shiftRight_eq_div_pow]
  omega

/-- The codes of some bytes are read back. -/
theorem allocCodes_spec {n : ℕ} (here : ℕ) (hn : Frame.Allocates n) : ∃ codes, allocCodes here n = some codes ∧ codes ≠ [] ∧
    ∀ passes acc, win64Restore (passes + 1) (codes ++ acc) =
      (win64Restore passes acc).map fun code => .add .rsp n :: code := by
  obtain ⟨hmod, hpos, hle⟩ := hn
  rw [allocCodes]
  split_ifs with hsmall
  · refine ⟨_, rfl, List.cons_ne_nil _ _, fun passes acc => ?_⟩
    obtain ⟨k, rfl⟩ : ∃ k, n = 8 * k := ⟨n / 8, by omega⟩
    have hk : 1 ≤ k ∧ k ≤ 16 := by omega
    obtain ⟨hlow, hhigh⟩ := hk
    interval_cases k <;> cases h : win64Restore passes acc <;>
      simp [win64Restore, h, sub64, u64, Pe.Uwop.allocSmall, Pe.Uwop.pushNonvol]
  · refine ⟨_, rfl, List.cons_ne_nil _ _, fun passes acc => ?_⟩
    have hshift := shift_and_255 n hmod
    cases h : win64Restore passes acc <;>
      simp [win64Restore, h, hshift, Pe.Uwop.allocSmall, Pe.Uwop.pushNonvol, Pe.Uwop.allocLarge]

/-- The codes of a macro are read back as the instructions that undo it. -/
theorem codes_spec (here : ℕ) (hstep : g.step op = some f) : ∃ codes, op.codes here = some codes ∧ codes ≠ [] ∧
    ∀ passes acc, win64Restore (passes + 1) (codes ++ acc) =
      (win64Restore passes acc).map fun code => op.undo ++ code := by
  cases op with
  | push r =>
    refine ⟨_, rfl, List.cons_ne_nil _ _, fun passes acc => ?_⟩
    cases h : win64Restore passes acc <;> cases r <;>
      simp [win64Restore, h, Pe.Uwop.pushNonvol, Reg.number, Reg.ofNumber, PrologueMacro.undo]
  | allocUnwind n => exact allocCodes_spec here (Frame.step_allocUnwind.mp hstep).1.1
  | alloc n => exact allocCodes_spec here (Frame.step_alloc.mp hstep).1
  | saveReg offset r =>
    obtain ⟨⟨-, hoffset, hlt, -⟩, -⟩ := Frame.step_saveReg.mp hstep
    refine ⟨_, if_neg (by omega), List.cons_ne_nil _ _, fun passes acc => ?_⟩
    have hshift := shift_and_255 offset hoffset
    cases h : win64Restore passes acc <;> cases r <;>
      simp [win64Restore, h, hshift, Pe.Uwop.pushNonvol, Pe.Uwop.allocSmall, Pe.Uwop.allocLarge, Pe.Uwop.saveNonvol,
        Reg.number, Reg.ofNumber, PrologueMacro.undo]
  | pushMachineframeUnwind =>
    refine ⟨_, rfl, List.cons_ne_nil _ _, fun passes acc => ?_⟩
    cases h : win64Restore passes acc <;>
      simp [win64Restore, h, Pe.Uwop.pushNonvol, Pe.Uwop.allocSmall, Pe.Uwop.allocLarge, Pe.Uwop.saveNonvol,
        Pe.Uwop.pushMachframe, PrologueMacro.undo]

/-- **The list of codes** is read back as the instructions that undo all macros. -/
theorem unwindCodes_spec {prologue : List (ℕ × PrologueMacro)} (acc : List ℕ) (hsteps : g.steps (prologue.map Prod.snd) = some f) :
    ∃ codes, unwindCodes acc prologue = some codes ∧ (acc ≠ [] ∨ prologue ≠ [] → codes ≠ []) ∧
      ∀ passes, win64Restore (passes + prologue.length) codes =
        (win64Restore passes acc).map fun code => undoCode (prologue.map Prod.snd) ++ code := by
  induction prologue generalizing g acc with
  | nil =>
    refine ⟨acc, rfl, fun h => h.resolve_right fun h => h rfl, fun passes => ?_⟩
    exact (Option.map_id' ..).symm
  | cons first prologue ih =>
    obtain ⟨here, op⟩ := first
    obtain ⟨g', hstep, hsteps⟩ := Frame.steps_cons.mp hsteps
    obtain ⟨codes, hcodes, hne, hread⟩ := codes_spec here hstep
    obtain ⟨all, hall, hallne, hreadall⟩ := ih (codes ++ acc) hsteps
    refine ⟨all, ?_, fun _ => hallne (.inl fun h => hne (List.append_eq_nil_iff.mp h).1), fun passes => ?_⟩
    · rw [unwindCodes, hcodes]
      exact hall
    · rw [List.length_cons, Nat.add_comm prologue.length, ← Nat.add_assoc, hreadall, hread, Option.map_map,
        List.map_cons, undoCode_cons]
      refine congrArg (fun f => Option.map f _) (funext fun code => ?_)
      exact (List.append_assoc ..).symm

/-- The epilogue of a prologue undoes it, if there are no more macros than `%rep` has passes. -/
theorem win64Epilogue_eq {prologue : List (ℕ × PrologueMacro)}
    (hsteps : Frame.empty.steps (prologue.map Prod.snd) = some f) (hne : prologue ≠ []) (hlength : prologue.length ≤ 100) :
    win64Epilogue prologue = some (undoCode (prologue.map Prod.snd)) := by
  obtain ⟨codes, hcodes, hcodesne, hread⟩ := unwindCodes_spec [] hsteps
  have hall := hread (100 - prologue.length)
  have hnil : win64Restore (100 - prologue.length) [] = some [] := by
    rw [win64Restore.eq_def]
  rw [Nat.sub_add_cancel hlength, hnil, Option.map_some, List.append_nil] at hall
  rw [win64Epilogue, hcodes]
  change (if codes = [] then none else win64Restore 100 codes) = some (undoCode (prologue.map Prod.snd))
  rw [if_neg (hcodesne (.inr hne)), hall]

end Epilogue

/-! ## Procedures -/

section Procedure

variable {prologue : List (ℕ × PrologueMacro)} {f : Frame}

theorem Frame.Saves.exists_place {r : Reg} (h : f.Saves r) : ∃ place, (place, r) ∈ f.saved := by
  obtain ⟨s, hs, rfl⟩ := List.mem_map.mp h
  exact ⟨s.1, hs⟩

/-- The machine that enters a procedure has built nothing. -/
theorem Built.empty {top : Word} {m : Machine} {u : ℕ} (hrsp : m.reg .rsp = below top u) :
    Built top m u Frame.empty m where
  rsp := hrsp.trans (congrArg (below top) (Nat.zero_max u).symm)
  reg _ _ := rfl
  saved := nofun
  memory _ _ := rfl
  rest := ⟨rfl, rfl, rfl⟩

/-- **A procedure keeps the registers that it saves.** The prologue allocates a frame and writes to
nothing else. Whatever is done then, if it leaves the stack pointer and the frame as they are, the
epilogue that the macros make from the codes of the prologue loads the saved registers again, and
the stack pointer is where it was, above what was on the stack already. -/
theorem procedure_keeps (hsteps : Frame.empty.steps (prologue.map Prod.snd) = some f) (hne : prologue ≠ [])
    (hlength : prologue.length ≤ 100) (m : Machine) :
    ∃ m₁ epilogue, Machine.run (prologueCode (prologue.map Prod.snd)) m = .done m₁ ∧
      win64Epilogue prologue = some epilogue ∧
      m₁.reg .rsp = m.reg .rsp - BitVec.ofNat 64 (f.depth - f.unwound) ∧ (∀ r, r ≠ .rsp → m₁.reg r = m.reg r) ∧
      (∀ x, ¬ InBlock (m₁.reg .rsp) (f.depth - f.unwound) x → m₁.mem x = m.mem x) ∧
      ∀ m₂ : Machine, m₂.reg .rsp = m₁.reg .rsp →
        (∀ x, InBlock (m₁.reg .rsp) (f.depth - f.unwound) x → m₂.mem x = m₁.mem x) →
        ∃ m₃, Machine.run epilogue m₂ = .done m₃ ∧ m₃.reg .rsp = m.reg .rsp + BitVec.ofNat 64 f.unwound ∧
          (∀ r, f.Saves r → m₃.reg r = m.reg r) ∧ (∀ r, r ≠ .rsp → ¬ f.Saves r → m₃.reg r = m₂.reg r) ∧
          m₃.mem = m₂.mem := by
  let top := m.reg .rsp + BitVec.ofNat 64 f.unwound
  have hentered : m.reg .rsp = below top f.unwound := (BitVec.add_sub_cancel ..).symm
  have hvalid := Frame.empty_valid.steps hsteps
  have hdepth := Frame.steps_depth hsteps
  have hmax : f.depth ≤ 2 ^ 62 := by
    have hempty : Frame.empty.depth = 0 := rfl
    rw [List.length_map] at hdepth
    omega
  obtain ⟨m₁, hrun, hbuilt⟩ := (Built.empty hentered).steps Frame.empty_valid hsteps hmax rfl
  have hle := hvalid.unwound_le
  have hrsp : m₁.reg .rsp = below top f.depth := by
    rw [hbuilt.rsp, max_eq_left hle]
  refine ⟨m₁, undoCode (prologue.map Prod.snd), hrun, win64Epilogue_eq hsteps hne hlength, ?_, hbuilt.reg, ?_, ?_⟩
  · rw [hrsp, hentered, below_sub, Nat.add_sub_cancel' hle]
  · intro x hx
    refine hbuilt.memory x ?_
    rwa [max_eq_left hle, ← hrsp]
  · intro m₂ hrsp₂ hmem₂
    obtain ⟨m₃, hundo, hrestored⟩ := undoCode_restores hsteps (hrsp₂.trans hrsp)
    refine ⟨m₃, hundo, hrestored.rsp, ?_, hrestored.reg, hrestored.rest.1⟩
    intro r hr
    obtain ⟨place, hplace⟩ := hr.exists_place
    have hword := hvalid.words _ hplace
    -- The word of the register is in the frame.
    have hkept : m₂.mem.load64 (below top place) = m₁.mem.load64 (below top place) := by
      refine Ram.load64_congr fun x hx => hmem₂ x ?_
      rw [hrsp]
      exact inBlock_below hx hword.2.2 (by omega) (by omega)
    rw [hrestored.saved _ hplace, hkept, hbuilt.saved _ hplace]

/-- The prologue of `memcpy`. -/
def memcpyPrologue : List PrologueMacro := [.push .rsi, .push .rdi]

/-- A machine that enters a procedure. -/
def entered : Machine where
  reg r := if r = .rsp then 0x8008 else BitVec.ofNat 64 r.number
  rip := 0x401000
  flags := 2
  cs := 8
  ss := 0
  fx _ := 0
  mem _ := 0

/-- `memcpy` keeps two registers, and goes back to where the stack pointer was. -/
theorem memcpy_keeps : ∃ m₁ m₂ epilogue, Machine.run (prologueCode memcpyPrologue) entered = .done m₁ ∧
    win64Epilogue (layout 0 memcpyPrologue) = some epilogue ∧ m₁.reg .rsp = 0x7ff8 ∧
    Machine.run epilogue ((m₁.set .rsi 1).set .rdi 2) = .done m₂ ∧
    m₂.reg .rsp = 0x8008 ∧ m₂.reg .rsi = 6 ∧ m₂.reg .rdi = 7 := by
  have hsteps : Frame.empty.steps ((layout 0 memcpyPrologue).map Prod.snd) =
      some ⟨16, 0, [(16, .rdi), (8, .rsi)]⟩ := rfl
  obtain ⟨m₁, epilogue, hrun, hepilogue, hrsp, -, -, h⟩ :=
    procedure_keeps hsteps (List.cons_ne_nil _ _) (by decide) entered
  obtain ⟨m₂, hundo, hback, hsaved, -, -⟩ := h ((m₁.set .rsi 1).set .rdi 2)
    ((Machine.set_reg_ne _ _ (by decide)).trans (Machine.set_reg_ne _ _ (by decide))) fun x _ => rfl
  exact ⟨m₁, m₂, epilogue, hrun, hepilogue, hrsp, hundo, hback, hsaved _ (by decide), hsaved _ (by decide)⟩

end Procedure

end Attos.Asm
