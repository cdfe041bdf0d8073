import Attos.Asm.Win64Proc

/-!
# Unwinding procedures of the assembler files

`win64_proc_end` writes the codes of a prologue to the image as the slots of an `UNWIND_INFO`. One
pass of the loop of `unwind_once` takes the slots of one macro (`unwindLoop_macro`), so the loop
releases what the macros allocate that are not behind the instruction, or leaves a machine frame
(`unwindLoop_slots`).

The macros say where an instruction of the prologue begins, and `unwind_once` takes this for where it
ends. So the caller is found while the stack pointer is where the prologue has left it, except from the
instructions of the prologue that allocate: from there, `unwind_once` looks as much too far up as
the instruction allocates (`unwind_procedure`).
-/

namespace Attos.Asm

open Lib Lib.X64

/-! ## The image -/

/-- The slots of some bytes. `db` takes the low byte of a value. -/
def slots : List ℕ → List UInt16
  | low :: high :: rest => UInt16.ofNat (low % 256 + 256 * (high % 256)) :: slots rest
  | _ => []

/-- `win64_proc_end` -/
def win64ProcEnd (prologue : List (ℕ × PrologueMacro)) : Option Pe.UnwindInfo := do
  let codes ← unwindCodes [] prologue
  pure {
    version := 1
    flags := 0
    countOfCodes := codes.length / 2 % 256
    frameRegister := 0
    frameOffset := 0
    unwindCodes := fun i => (slots codes).getD i 0 }

/-- The memory of the machine, as `unwind_once` reads it. -/
def peMemory (mem : Ram) : Pe.Memory := fun a => mem a.toBitVec

/-! ## One macro -/

/-- The bytes that a macro allocates, according to its codes. -/
def PrologueMacro.bytes : PrologueMacro → ℕ
  | push _ => 8
  | allocUnwind n => n
  | alloc n => n
  | saveReg _ _ => 0
  | pushMachineframeUnwind => 0

/-- The context when the loop is through with the macros, of which the last one comes first. -/
def unwound (mem : Pe.Memory) (offset : ℕ) : List (ℕ × PrologueMacro) → Pe.UnwindContext → Pe.UnwindContext
  | [], context => context.ret mem
  | (here, op) :: rest, context =>
    if op = .pushMachineframeUnwind ∧ here ≤ offset then context.iret mem
    else unwound mem offset rest (context.release (here > offset) op.bytes)

/-- The slot behind a code for many bytes. -/
theorem slot_size {n : ℕ} (hn : n % 8 = 0) (hhigh : n >>> 11 < 256) :
    ((n >>> 3) &&& 0xff) % 256 + 256 * (n >>> 11 % 256) = n / 8 := by
  have hlow : (n >>> 3) &&& 0xff = n >>> 3 % 256 := Nat.and_two_pow_sub_one_eq_mod (n >>> 3) 8
  rw [hlow, Nat.mod_eq_of_lt hhigh, Nat.shiftRight_eq_div_pow, Nat.shiftRight_eq_div_pow]
  omega

section Macro

variable {g f : Frame} {op : PrologueMacro} {here : ℕ} {codes : List ℕ}

/-- The codes of some bytes on the stack are those of an operation. -/
theorem allocCodes_encode {n : ℕ} (hn : Frame.Allocates n) (hcodes : allocCodes here n = some codes)
    (hbytes : ∀ v ∈ codes, v < 256) :
    ∃ code : Pe.PrologueCode, code.offset.toNat = here ∧ code.op.bytes = n ∧ code.encode = slots codes := by
  obtain ⟨hmod, hpos, hle⟩ := hn
  rw [allocCodes] at hcodes
  split_ifs at hcodes with hsmall
  · cases hcodes
    have hhere : here < 256 := hbytes _ List.mem_cons_self
    obtain ⟨k, rfl⟩ : ∃ k, n = 8 * k := ⟨n / 8, by omega⟩
    have hk : 1 ≤ k ∧ k ≤ 16 := by omega
    refine ⟨⟨UInt8.ofNat here, .allocSmall ⟨k - 1, by omega⟩⟩, ?_, ?_, ?_⟩
    · rw [UInt8.toNat_ofNat', Nat.mod_eq_of_lt hhere]
    · change 8 * (k - 1 + 1) = 8 * k
      omega
    · obtain ⟨hlow, hhigh⟩ := hk
      interval_cases k <;>
        simp [Pe.PrologueCode.encode, slots, Pe.putCode, Pe.Uwop.allocSmall, sub64, u64, Nat.mod_eq_of_lt hhere]
  · cases hcodes
    have hhere : here < 256 := hbytes _ List.mem_cons_self
    have hhigh : n >>> 11 < 256 := hbytes _ (by simp)
    have hdiv : n / 8 < 2 ^ 16 := by
      rw [Nat.shiftRight_eq_div_pow] at hhigh
      omega
    refine ⟨⟨UInt8.ofNat here, .allocLarge (UInt16.ofNat (n / 8))⟩, ?_, ?_, ?_⟩
    · rw [UInt8.toNat_ofNat', Nat.mod_eq_of_lt hhere]
    · change 8 * (UInt16.ofNat (n / 8)).toNat = n
      rw [UInt16.toNat_ofNat']
      omega
    · simp only [Pe.PrologueCode.encode, slots, slot_size hmod hhigh]
      simp [Pe.putCode, Pe.Uwop.allocLarge, Nat.mod_eq_of_lt hhere]

/-- The codes of a macro are those of an operation, unless it is for a machine frame. -/
theorem codes_encode (hstep : g.step op = some f) (hop : op ≠ .pushMachineframeUnwind)
    (hcodes : op.codes here = some codes) (hbytes : ∀ v ∈ codes, v < 256) :
    ∃ code : Pe.PrologueCode, code.offset.toNat = here ∧ code.op.bytes = op.bytes ∧ code.encode = slots codes := by
  cases op with
  | push r =>
    cases hcodes
    have hhere : here < 256 := hbytes _ List.mem_cons_self
    refine ⟨⟨UInt8.ofNat here, .push ⟨r.number, r.number_lt⟩⟩, ?_, rfl, ?_⟩
    · rw [UInt8.toNat_ofNat', Nat.mod_eq_of_lt hhere]
    · cases r <;> simp [Pe.PrologueCode.encode, slots, Pe.putCode, Pe.Uwop.pushNonvol, Reg.number, Nat.mod_eq_of_lt hhere]
  | allocUnwind n => exact allocCodes_encode (Frame.step_allocUnwind.mp hstep).1.1 hcodes hbytes
  | alloc n => exact allocCodes_encode (Frame.step_alloc.mp hstep).1 hcodes hbytes
  | saveReg offset r =>
    obtain ⟨⟨-, hoffset, hlt, -⟩, -⟩ := Frame.step_saveReg.mp hstep
    rw [PrologueMacro.codes, if_neg (by omega)] at hcodes
    cases hcodes
    have hhere : here < 256 := hbytes _ List.mem_cons_self
    have hhigh : offset >>> 11 < 256 := hbytes _ (by simp)
    refine ⟨⟨UInt8.ofNat here, .save ⟨r.number, r.number_lt⟩ (UInt16.ofNat (offset / 8))⟩, ?_, rfl, ?_⟩
    · rw [UInt8.toNat_ofNat', Nat.mod_eq_of_lt hhere]
    · simp only [Pe.PrologueCode.encode, slots, slot_size hoffset hhigh]
      cases r <;> simp [Pe.putCode, Pe.Uwop.saveNonvol, Reg.number, Nat.mod_eq_of_lt hhere]
  | pushMachineframeUnwind => exact absurd rfl hop

end Macro

theorem mem_of_unwindCodes {prologue : List (ℕ × PrologueMacro)} {acc codes : List ℕ}
    (h : unwindCodes acc prologue = some codes) {v : ℕ} (hv : v ∈ acc) : v ∈ codes := by
  induction prologue generalizing acc with
  | nil => cases h; exact hv
  | cons first prologue ih =>
    obtain ⟨new, -, hall⟩ := Option.bind_eq_some_iff.mp h
    exact ih hall (List.mem_append_right _ hv)

/-! ## The loop -/

/-- The loop takes the slots `l` at the end of the codes, and computes `k`. -/
def Reads (mem : Pe.Memory) (ui : Pe.UnwindInfo) (offset : ℕ) (l : List UInt16)
    (k : Pe.UnwindContext → Pe.UnwindContext) : Prop :=
  ∀ i context, ui.countOfCodes = i + l.length → (∀ j (h : j < l.length), ui.unwindCodes (i + j) = l[j]) →
    Computes (fun fuel => Pe.unwindLoop mem ui offset fuel i context) (k context)

section Loop

variable {mem : Pe.Memory} {ui : Pe.UnwindInfo} {offset : ℕ} {l l' : List UInt16}
  {k : Pe.UnwindContext → Pe.UnwindContext}

/-- At the end, the return address is taken from the stack. -/
theorem reads_nil : Reads mem ui offset [] (Pe.UnwindContext.ret mem) := by
  intro i context hcount _
  have hend : ¬ i < ui.countOfCodes := by
    rw [hcount, List.length_nil]
    omega
  refine .step rfl (fun fuel => ?_) (.of_done fun _ => rfl)
  rw [Pe.unwindLoop, if_neg hend]

/-- **One pass** takes the slots of an operation. -/
theorem Reads.code (h : Reads mem ui offset l k) (code : Pe.PrologueCode) :
    Reads mem ui offset (code.encode ++ l)
      fun context => k (context.release (code.offset.toNat > offset) code.op.bytes) := by
  intro i context hcount hcodes
  rw [List.length_append] at hcount
  have hpos := code.length_encode_pos
  have hfirst : ∀ j (h : j < code.encode.length), ui.unwindCodes (i + j) = code.encode[j] := by
    intro j hj
    rw [hcodes j (by rw [List.length_append]; omega)]
    exact List.getElem_append_left hj
  have hrest : ∀ j (h : j < l.length), ui.unwindCodes (i + code.encode.length + j) = l[j] := by
    intro j hj
    rw [Nat.add_assoc, hcodes _ (by rw [List.length_append]; omega)]
    simp only [List.getElem_append_right' code.encode hj, Nat.add_comm]
  exact .step rfl (Pe.unwindLoop_code (by omega) hfirst) (h _ _ (by omega) hrest)

/-- One pass takes the slot of a machine frame. It is the last one if the frame is there. -/
theorem Reads.machineframe {here : ℕ} (h : Reads mem ui offset l k) (hhere : here < 256) :
    Reads mem ui offset (Pe.putCode (UInt8.ofNat here) Pe.Uwop.pushMachframe 0 :: l)
      fun context => if here ≤ offset then context.iret mem else k context := by
  intro i context hcount hcodes
  rw [List.length_cons] at hcount
  have hslot : ui.unwindCodes i = Pe.putCode (UInt8.ofNat here) Pe.Uwop.pushMachframe 0 :=
    hcodes 0 (Nat.succ_pos _)
  have hoffset : (UInt8.ofNat here).toNat = here := by
    rw [UInt8.toNat_ofNat', Nat.mod_eq_of_lt hhere]
  have hpass : ∀ fuel, Pe.unwindLoop mem ui offset (fuel + 1) i context =
      if here > offset then Pe.unwindLoop mem ui offset fuel (i + 1) context else .done (context.iret mem) := by
    intro fuel
    rw [Pe.unwindLoop, if_pos (by omega), hslot, Pe.read_putCode _ (by decide), hoffset]
    rfl
  have hrest : ∀ j (h : j < l.length), ui.unwindCodes (i + 1 + j) = l[j] := by
    intro j hj
    rw [Nat.add_assoc, Nat.add_comm 1]
    exact hcodes _ (Nat.succ_lt_succ hj)
  by_cases hle : here ≤ offset
  · simp only [if_pos hle]
    refine .step rfl (fun fuel => ?_) (.of_done fun _ => rfl)
    rw [hpass, if_neg (Nat.not_lt.mpr hle)]
  · simp only [if_neg hle]
    refine .step rfl (fun fuel => ?_) (h _ context (by omega) hrest)
    rw [hpass, if_pos (Nat.lt_of_not_le hle)]

theorem length_slots_even {codes : List ℕ} (h : codes.length % 2 = 0) : (slots codes).length = codes.length / 2 := by
  induction codes using slots.induct with
  | case1 low high rest ih =>
    rw [List.length_cons, List.length_cons] at h ⊢
    rw [slots, List.length_cons, ih (by omega)]
    omega
  | case2 codes hne =>
    obtain _ | ⟨low, _ | ⟨high, rest⟩⟩ := codes
    · rfl
    · exact absurd h Nat.one_ne_zero
    · exact absurd rfl (hne _ _ _)

theorem slots_append {codes codes' : List ℕ} (h : codes.length % 2 = 0) :
    slots (codes ++ codes') = slots codes ++ slots codes' := by
  induction codes using slots.induct with
  | case1 low high rest ih =>
    rw [List.length_cons, List.length_cons] at h
    rw [List.cons_append, List.cons_append, slots, slots, ih (by omega), List.cons_append]
  | case2 codes hne =>
    obtain _ | ⟨low, _ | ⟨high, rest⟩⟩ := codes
    · rfl
    · exact absurd h Nat.one_ne_zero
    · exact absurd rfl (hne _ _ _)

theorem length_allocCodes {here n : ℕ} {codes : List ℕ} (h : allocCodes here n = some codes) :
    codes.length % 2 = 0 ∧ 2 ≤ codes.length := by
  rw [allocCodes] at h
  split_ifs at h <;> cases h <;> simp

/-- Every macro has an even number of bytes. -/
theorem length_codes {op : PrologueMacro} {here : ℕ} {codes : List ℕ} (h : op.codes here = some codes) :
    codes.length % 2 = 0 ∧ 2 ≤ codes.length := by
  cases op with
  | push r => cases h; simp
  | allocUnwind n => exact length_allocCodes h
  | alloc n => exact length_allocCodes h
  | saveReg offset r =>
    rw [PrologueMacro.codes] at h
    split_ifs at h
    cases h
    simp
  | pushMachineframeUnwind => cases h; simp

/-- **The slots of a macro** are taken, and the others behind it. -/
theorem Reads.prepend {g f : Frame} {op : PrologueMacro} {here : ℕ} {codes acc : List ℕ} {rest : List (ℕ × PrologueMacro)}
    (hstep : g.step op = some f) (hcodes : op.codes here = some codes) (hbytes : ∀ v ∈ codes, v < 256)
    (h : Reads mem ui offset (slots acc) (unwound mem offset rest)) :
    Reads mem ui offset (slots (codes ++ acc)) (unwound mem offset ((here, op) :: rest)) := by
  rw [slots_append (length_codes hcodes).1]
  by_cases hop : op = .pushMachineframeUnwind
  · subst hop
    cases hcodes
    have hhere : here < 256 := hbytes _ List.mem_cons_self
    have hslot : slots [here, Pe.Uwop.pushMachframe ||| 0] =
        [Pe.putCode (UInt8.ofNat here) Pe.Uwop.pushMachframe 0] := by
      simp [slots, Pe.putCode, Pe.Uwop.pushMachframe, Nat.mod_eq_of_lt hhere]
    rw [hslot]
    intro i context hcount hread
    have hpass := h.machineframe hhere i context hcount hread
    have hframe : unwound mem offset ((here, .pushMachineframeUnwind) :: rest) context =
        if here ≤ offset then context.iret mem else unwound mem offset rest context := by
      rw [unwound, PrologueMacro.bytes, Pe.release_zero]
      simp only [true_and]
    rw [hframe]
    exact hpass
  · obtain ⟨code, hoffset, hbytes, hencode⟩ := codes_encode hstep hop hcodes hbytes
    have hunwound : unwound mem offset ((here, op) :: rest) =
        fun context => unwound mem offset rest (context.release (code.offset.toNat > offset) code.op.bytes) := by
      funext context
      rw [unwound, if_neg fun h => hop h.1, hoffset, hbytes]
    rw [← hencode, hunwound]
    exact h.code code

theorem length_unwindCodes {prologue : List (ℕ × PrologueMacro)} {acc codes : List ℕ}
    (h : unwindCodes acc prologue = some codes) (hacc : acc.length % 2 = 0) :
    codes.length % 2 = 0 ∧ 2 * prologue.length + acc.length ≤ codes.length := by
  induction prologue generalizing acc with
  | nil => cases h; exact ⟨hacc, (Nat.zero_add _).le⟩
  | cons first prologue ih =>
    obtain ⟨new, hnew, hall⟩ := Option.bind_eq_some_iff.mp h
    have hlength := length_codes hnew
    have hrest := ih hall (by rw [List.length_append]; omega)
    rw [List.length_append] at hrest
    rw [List.length_cons]
    omega

/-- **The loop** over the slots of a prologue. -/
theorem unwindLoop_slots {g f : Frame} {prologue rest : List (ℕ × PrologueMacro)} {acc codes : List ℕ}
    (hsteps : g.steps (prologue.map Prod.snd) = some f) (hcodes : unwindCodes acc prologue = some codes)
    (hbytes : ∀ v ∈ codes, v < 256) (h : Reads mem ui offset (slots acc) (unwound mem offset rest)) :
    Reads mem ui offset (slots codes) (unwound mem offset (prologue.reverse ++ rest)) := by
  induction prologue generalizing g acc rest with
  | nil => cases hcodes; exact h
  | cons first prologue ih =>
    obtain ⟨here, op⟩ := first
    obtain ⟨g', hstep, hsteps⟩ := Frame.steps_cons.mp hsteps
    obtain ⟨new, hnew, hall⟩ := Option.bind_eq_some_iff.mp hcodes
    have hsub : ∀ v ∈ new ++ acc, v < 256 := fun v hv => hbytes v (mem_of_unwindCodes hall hv)
    rw [List.reverse_cons, List.append_assoc]
    exact ih hsteps hall (h.prepend hstep hnew fun v hv => hsub v (List.mem_append_left _ hv))

end Loop

/-! ## The caller -/

/-- The number of bytes that macros are assembled to. -/
def codeSize (ops : List PrologueMacro) : ℕ := (ops.map PrologueMacro.size).sum

/-- The bytes that macros allocate if they are not behind the offset. -/
def released (offset : ℕ) (prologue : List (ℕ × PrologueMacro)) : ℕ :=
  ((prologue.filter fun p => p.1 ≤ offset).map fun p => p.2.bytes).sum

/-- The bytes that the first macro allocates. -/
def nextBytes : List PrologueMacro → ℕ
  | [] => 0
  | op :: _ => op.bytes

/-- The context of the caller, with the return address or a machine frame at `top`. -/
def caller (ops : List PrologueMacro) (mem : Ram) (top : Word) : Pe.UnwindContext :=
  if ops.head? = some .pushMachineframeUnwind then
    ⟨UInt64.ofBitVec (mem.load64 (top + 24)), UInt64.ofBitVec (mem.load64 top)⟩
  else ⟨UInt64.ofBitVec (top + 8), UInt64.ofBitVec (mem.load64 top)⟩

section Caller

variable {mem : Pe.Memory} {offset here : ℕ} {prologue rest : List (ℕ × PrologueMacro)} {ops : List PrologueMacro}
  {context : Pe.UnwindContext} {f g : Frame}

theorem released_cons (p : ℕ × PrologueMacro) (prologue : List (ℕ × PrologueMacro)) :
    released offset (p :: prologue) = (if p.1 ≤ offset then p.2.bytes else 0) + released offset prologue := by
  rw [released, List.filter_cons]
  simp only [decide_eq_true_eq]
  split_ifs with h
  · rw [List.map_cons, List.sum_cons, released]
  · rw [Nat.zero_add, released]

theorem released_reverse (prologue : List (ℕ × PrologueMacro)) :
    released offset prologue.reverse = released offset prologue := by
  rw [released, List.filter_reverse, List.map_reverse, List.sum_reverse, released]

/-- Macros that are not for machine frames are undone together. -/
theorem unwound_append (h : ∀ p ∈ prologue, p.2 ≠ .pushMachineframeUnwind) :
    unwound mem offset (prologue ++ rest) context =
      unwound mem offset rest ⟨context.rsp + UInt64.ofNat (released offset prologue), context.rip⟩ := by
  induction prologue generalizing context with
  | nil => exact congrArg (fun rsp => unwound mem offset rest ⟨rsp, context.rip⟩) (UInt64.add_zero _).symm
  | cons p prologue ih =>
    have hp := h p List.mem_cons_self
    rw [List.cons_append, unwound, if_neg fun h => hp h.1, ih fun p hp => h p (List.mem_cons_of_mem _ hp),
      Pe.release_eq, released_cons, UInt64.ofNat_add, ← UInt64.add_assoc]

/-- The frame has as many bytes as are allocated. -/
theorem depth_step {op : PrologueMacro} (hstep : g.step op = some f) : f.depth = g.depth + op.bytes := by
  cases op with
  | push r => obtain ⟨-, rfl⟩ := Frame.step_push.mp hstep; rfl
  | allocUnwind n => obtain ⟨-, rfl⟩ := Frame.step_allocUnwind.mp hstep; rfl
  | alloc n => obtain ⟨-, rfl⟩ := Frame.step_alloc.mp hstep; rfl
  | saveReg offset r => obtain ⟨-, rfl⟩ := Frame.step_saveReg.mp hstep; rfl
  | pushMachineframeUnwind => obtain rfl := Frame.step_machineframe.mp hstep; rfl

theorem depth_steps (hsteps : g.steps ops = some f) : f.depth = g.depth + (ops.map PrologueMacro.bytes).sum := by
  induction ops generalizing g with
  | nil => cases hsteps; rfl
  | cons op ops ih =>
    obtain ⟨g', hstep, hsteps⟩ := Frame.steps_cons.mp hsteps
    rw [ih hsteps, depth_step hstep, List.map_cons, List.sum_cons, Nat.add_assoc]

theorem layout_append (ops' : List PrologueMacro) :
    layout here (ops ++ ops') = layout here ops ++ layout (here + codeSize ops) ops' := by
  induction ops generalizing here with
  | nil => rfl
  | cons op ops ih =>
    rw [List.cons_append, layout, layout, ih, List.cons_append, codeSize, codeSize, List.map_cons, List.sum_cons,
      Nat.add_assoc]

/-- What is in front of an instruction is released. -/
theorem released_layout (h : here + codeSize ops ≤ offset) :
    released offset (layout here ops) = (ops.map PrologueMacro.bytes).sum := by
  induction ops generalizing here with
  | nil => rfl
  | cons op ops ih =>
    rw [codeSize, List.map_cons, List.sum_cons, ← codeSize] at h
    rw [layout, released_cons, if_pos (by change here ≤ offset; omega), ih (by omega), List.map_cons, List.sum_cons]

/-- What is behind it is not. -/
theorem released_layout_behind (h : offset < here) : released offset (layout here ops) = 0 := by
  induction ops generalizing here with
  | nil => rfl
  | cons op ops ih =>
    rw [layout, released_cons, if_neg (by change ¬ here ≤ offset; omega), ih (by omega)]

/-- At the instruction, the macro of it is released too. -/
theorem released_layout_at (h : ∀ op ∈ ops, 0 < op.size) : released here (layout here ops) = nextBytes ops := by
  cases ops with
  | nil => rfl
  | cons op ops =>
    have hsize := h op List.mem_cons_self
    rw [layout, released_cons, if_pos (le_refl here), released_layout_behind (by omega), nextBytes, Nat.add_zero]

theorem mem_layout {p : ℕ × PrologueMacro} (h : p ∈ layout here ops) : p.2 ∈ ops := by
  have hmem := List.mem_map_of_mem (f := Prod.snd) h
  rwa [map_snd_layout] at hmem

end Caller

/-! ## The result -/

/-- The unwind info in an image of a procedure whose prologue has only macros in it. -/
structure Unwindable (ops : List PrologueMacro) (codes : List ℕ) (ui : Pe.UnwindInfo) : Prop where
  /-- the codes -/
  encoded : unwindCodes [] (layout 0 ops) = some codes
  /-- they are bytes -/
  bytes : ∀ v ∈ codes, v < 256
  /-- there are not too many of them -/
  count : codes.length / 2 < 256
  /-- `win64_proc_end` -/
  info : win64ProcEnd (layout 0 ops) = some ui
  /-- a machine frame comes first -/
  machineframe : .pushMachineframeUnwind ∉ ops.tail

section Result

variable {ops : List PrologueMacro} {codes : List ℕ} {ui : Pe.UnwindInfo} {f g : Frame} {mem : Ram} {top : Word}
  {offset k : ℕ} {rip : UInt64}

theorem ret_peMemory (a : Word) (rip : UInt64) : Pe.UnwindContext.ret (peMemory mem) ⟨UInt64.ofBitVec a, rip⟩ =
    ⟨UInt64.ofBitVec (a + 8), UInt64.ofBitVec (mem.load64 a)⟩ := rfl

theorem iret_peMemory (a : Word) (rip : UInt64) : Pe.UnwindContext.iret (peMemory mem) ⟨UInt64.ofBitVec a, rip⟩ =
    ⟨UInt64.ofBitVec (mem.load64 (a + 24)), UInt64.ofBitVec (mem.load64 a)⟩ := rfl

/-- The instruction at the offset is the one behind the first `k` macros, or it is behind all of
them. -/
def IsAt (ops : List PrologueMacro) (k offset : ℕ) : Prop :=
  offset = codeSize (ops.take k) ∨ ops.length ≤ k ∧ codeSize ops ≤ offset

/-- What is released at an instruction. -/
theorem released_at (hat : IsAt ops k offset) (hsize : ∀ op ∈ ops.drop k, 0 < op.size) :
    released offset (layout 0 (ops.take k)) = ((ops.take k).map PrologueMacro.bytes).sum ∧
      released offset (layout (codeSize (ops.take k)) (ops.drop k)) = nextBytes (ops.drop k) := by
  obtain rfl | ⟨hk, hle⟩ := hat
  · exact ⟨released_layout (Nat.zero_add _).le, released_layout_at hsize⟩
  · rw [List.take_of_length_le hk, List.drop_of_length_le hk]
    exact ⟨released_layout ((Nat.zero_add _).trans_le hle), rfl⟩

/-- The macros of a procedure are undone, up to the instruction and with the macro of it. -/
theorem unwound_layout (hg : Frame.empty.steps (ops.take k) = some g) (hat : IsAt ops k offset)
    (hsize : ∀ op ∈ ops.drop k, 0 < op.size) (hframe : .pushMachineframeUnwind ∉ ops.tail) :
    unwound (peMemory mem) offset (layout 0 ops).reverse ⟨UInt64.ofBitVec (below top g.depth), rip⟩ =
      caller ops mem (top + BitVec.ofNat 64 (nextBytes (ops.drop k))) := by
  obtain ⟨hdone, htodo⟩ := released_at hat hsize
  have hdepth : g.depth = 0 + ((ops.take k).map PrologueMacro.bytes).sum := depth_steps hg
  have hdrop : ∀ p ∈ (layout (codeSize (ops.take k)) (ops.drop k)).reverse, p.2 ≠ .pushMachineframeUnwind := by
    intro p hp heq
    have hpos := hsize _ (mem_layout (List.mem_reverse.mp hp))
    rw [heq] at hpos
    exact Nat.lt_irrefl 0 hpos
  have hsplit : layout 0 ops = layout 0 (ops.take k) ++ layout (codeSize (ops.take k)) (ops.drop k) := by
    conv_lhs => rw [← List.take_append_drop k ops, layout_append, Nat.zero_add]
  have hback : ∀ n m : ℕ, g.depth = m →
      UInt64.ofBitVec (below top g.depth) + UInt64.ofNat n + UInt64.ofNat m =
        UInt64.ofBitVec (top + BitVec.ofNat 64 n) := by
    rintro n m rfl
    change UInt64.ofBitVec (below top g.depth + BitVec.ofNat 64 n + BitVec.ofNat 64 g.depth) = _
    congr 1
    rw [below]
    grind
  rw [hsplit, List.reverse_append, unwound_append hdrop, released_reverse, htodo]
  cases htake : ops.take k with
  | nil =>
    rw [htake] at hdepth hg
    have hcaller : ops.head? ≠ some .pushMachineframeUnwind := by
      intro hhead
      obtain ⟨rest, rfl⟩ := List.head?_eq_some_iff.mp hhead
      obtain rfl : k = 0 := by
        cases k with
        | zero => rfl
        | succ k => cases htake
      exact Nat.lt_irrefl 0 (hsize _ List.mem_cons_self)
    have hzero := hback (nextBytes (ops.drop k)) 0 hdepth
    rw [caller, if_neg hcaller, layout, List.reverse_nil, unwound, ← ret_peMemory _ rip, ← hzero]
    exact congrArg (fun rsp => Pe.UnwindContext.ret _ ⟨rsp, rip⟩) (UInt64.add_zero _).symm
  | cons op rest =>
    have hhead : ops.head? = some op := by
      rw [← List.take_append_drop k ops, htake]
      rfl
    have hrest : .pushMachineframeUnwind ∉ rest := by
      intro hmem
      refine hframe ?_
      rw [← List.take_append_drop k ops, htake]
      exact List.mem_append_left _ hmem
    have hdoneRest : ∀ p ∈ (layout (0 + op.size) rest).reverse, p.2 ≠ .pushMachineframeUnwind := by
      intro p hp heq
      exact hrest (heq ▸ mem_layout (List.mem_reverse.mp hp))
    rw [htake, layout, released_cons] at hdone
    rw [htake] at hdepth
    rw [layout, List.reverse_cons, unwound_append hdoneRest, released_reverse, unwound, caller, hhead]
    by_cases hop : op = .pushMachineframeUnwind
    · subst hop
      have hzero : 0 ≤ offset := Nat.zero_le offset
      rw [if_pos ⟨rfl, hzero⟩, if_pos rfl, ← iret_peMemory _ rip, ← hback _ _ rfl]
      rw [if_pos hzero] at hdone
      have hreleased : released offset (layout (0 + PrologueMacro.pushMachineframeUnwind.size) rest) = g.depth := by
        rw [hdepth, ← hdone]
        exact (Nat.zero_add _).symm.trans (Nat.zero_add _).symm
      rw [hreleased]
    · rw [if_neg fun h => hop h.1, if_neg fun h => hop (Option.some.inj h), ← ret_peMemory _ rip,
        ← hback _ _ rfl, Pe.release_eq, unwound]
      rw [if_pos (Nat.zero_le offset)] at hdone
      rw [if_pos (Nat.zero_le offset), UInt64.add_assoc, ← UInt64.ofNat_add, Nat.add_comm, hdone, hdepth, Nat.zero_add]

variable {image : Pe.Image} {rf : Pe.RuntimeFunction} {rva : UInt32}

variable (mem top) in
/-- **`unwind_once`** in a procedure. -/
theorem unwindOnce_layout (h : Unwindable ops codes ui) (hsteps : Frame.empty.steps ops = some f)
    (hg : Frame.empty.steps (ops.take k) = some g) (hsize : ∀ op ∈ ops.drop k, 0 < op.size)
    (hfound : Pe.runtimeFunctionInfo image.functions rva = some rf)
    (hinfo : image.unwindInfo rf.unwindInfoAddress = ui) (hat : IsAt ops k (rva - rf.beginAddress).toNat) :
    Computes (fun fuel => Pe.unwindOnce fuel (peMemory mem) image
        ⟨UInt64.ofBitVec (below top g.depth), image.base + rva.toUInt64⟩)
      (caller ops mem (top + BitVec.ofNat 64 (nextBytes (ops.drop k)))) := by
  have hrva : (image.base + rva.toUInt64 - image.base).toUInt32 = rva := by
    rw [UInt64.add_comm, UInt64.add_sub_cancel, UInt32.toUInt32_toUInt64]
  obtain ⟨heven, -⟩ := length_unwindCodes h.encoded rfl
  have hcount := h.count
  have hui := h.info
  rw [win64ProcEnd, h.encoded] at hui
  obtain rfl := Option.some.inj hui
  have hnil : Reads (peMemory mem) (image.unwindInfo rf.unwindInfoAddress) (rva - rf.beginAddress).toNat (slots [])
      (unwound (peMemory mem) (rva - rf.beginAddress).toNat []) := reads_nil
  have hreads := unwindLoop_slots ((map_snd_layout 0 ops).symm ▸ hsteps) h.encoded h.bytes hnil
  rw [List.append_nil] at hreads
  have hloop := hreads 0 ⟨UInt64.ofBitVec (below top g.depth), image.base + rva.toUInt64⟩
    (by
      rw [hinfo, length_slots_even heven, Nat.zero_add]
      exact Nat.mod_eq_of_lt hcount)
    (by
      intro j hj
      rw [hinfo, Nat.zero_add]
      exact (List.getD_eq_getElem?_getD ..).trans (congrArg (Option.getD · 0) (List.getElem?_eq_getElem hj)))
  rw [unwound_layout hg hat hsize h.machineframe] at hloop
  have honce : ∀ fuel, Pe.unwindOnce fuel (peMemory mem) image
      ⟨UInt64.ofBitVec (below top g.depth), image.base + rva.toUInt64⟩ =
      Pe.unwindLoop (peMemory mem) (image.unwindInfo rf.unwindInfoAddress) (rva - rf.beginAddress).toNat fuel 0
        ⟨UInt64.ofBitVec (below top g.depth), image.base + rva.toUInt64⟩ := by
    intro fuel
    rw [Pe.unwindOnce]
    simp only [hrva, hfound, hinfo]
    rfl
  exact (funext honce) ▸ hloop

/-- Macros with instructions do not say that there is more on the stack. -/
theorem unwound_step {op : PrologueMacro} (hstep : g.step op = some f) (hsize : 0 < op.size) :
    f.unwound = g.unwound := by
  cases op with
  | push r => obtain ⟨-, rfl⟩ := Frame.step_push.mp hstep; rfl
  | allocUnwind n => exact absurd hsize (Nat.lt_irrefl 0)
  | alloc n => obtain ⟨-, rfl⟩ := Frame.step_alloc.mp hstep; rfl
  | saveReg offset r => obtain ⟨-, rfl⟩ := Frame.step_saveReg.mp hstep; rfl
  | pushMachineframeUnwind => exact absurd hsize (Nat.lt_irrefl 0)

theorem unwound_steps (hsteps : g.steps ops = some f) (hsize : ∀ op ∈ ops, 0 < op.size) :
    f.unwound = g.unwound := by
  induction ops generalizing g with
  | nil => cases hsteps; rfl
  | cons op ops ih =>
    obtain ⟨g', hstep, hsteps⟩ := Frame.steps_cons.mp hsteps
    exact (ih hsteps fun op hop => hsize op (List.mem_cons_of_mem _ hop)).trans
      (unwound_step hstep (hsize op List.mem_cons_self))

theorem steps_append {ops' : List PrologueMacro} (hsteps : g.steps (ops ++ ops') = some f) :
    ∃ g', g.steps ops = some g' ∧ g'.steps ops' = some f := by
  rw [Frame.steps, List.foldlM_append] at hsteps
  exact Option.bind_eq_some_iff.mp hsteps

/-- Only a return address or a machine frame is read. -/
theorem caller_congr {mem' : Ram} (h : ∀ x, InBlock top 32 x → mem' x = mem x) :
    caller ops mem' top = caller ops mem top := by
  have hword : ∀ i, i + 8 ≤ 32 → mem'.load64 (top + BitVec.ofNat 64 i) = mem.load64 (top + BitVec.ofNat 64 i) := by
    intro i hi
    refine Ram.load64_congr fun x hx => h x ?_
    obtain ⟨j, hj, rfl⟩ := hx.exists_add
    rw [BitVec.add_assoc, ← BitVec.ofNat_add]
    exact inBlock_add top (by omega) (by decide)
  have hrip : mem'.load64 top = mem.load64 top := by
    have hzero := hword 0 (by decide)
    rwa [BitVec.add_zero] at hzero
  have hrsp : mem'.load64 (top + 24) = mem.load64 (top + 24) := hword 24 (by decide)
  rw [caller, caller, hrip, hrsp]

/-- **The caller is found** while the stack pointer is where the prologue has left it. The first `k` macros
are executed, and then other instructions that leave the stack pointer as it is. If the instruction is
one of the prologue that allocates, `unwind_once` takes the bytes that it is about to allocate off as well. If
not, and what was on the stack when the procedure was entered is still there, the context is
that of the caller. -/
theorem unwind_procedure (h : Unwindable ops codes ui) (hsteps : Frame.empty.steps ops = some f)
    (hsize : ∀ op ∈ ops.drop k, 0 < op.size) (hfound : Pe.runtimeFunctionInfo image.functions rva = some rf)
    (hinfo : image.unwindInfo rf.unwindInfoAddress = ui) (hat : IsAt ops k (rva - rf.beginAddress).toNat)
    (m : Machine) :
    ∃ m', Machine.run (prologueCode (ops.take k)) m = .done m' ∧ ∀ m'' : Machine, m''.reg .rsp = m'.reg .rsp →
      Computes (fun fuel => Pe.unwindOnce fuel (peMemory m''.mem) image
          ⟨UInt64.ofBitVec (m''.reg .rsp), image.base + rva.toUInt64⟩)
        (caller ops m''.mem (m.reg .rsp + BitVec.ofNat 64 f.unwound + BitVec.ofNat 64 (nextBytes (ops.drop k)))) ∧
      (nextBytes (ops.drop k) = 0 →
        (∀ x, InBlock (m.reg .rsp + BitVec.ofNat 64 f.unwound) 32 x → m''.mem x = m'.mem x) →
        Computes (fun fuel => Pe.unwindOnce fuel (peMemory m''.mem) image
            ⟨UInt64.ofBitVec (m''.reg .rsp), image.base + rva.toUInt64⟩)
          (caller ops m.mem (m.reg .rsp + BitVec.ofNat 64 f.unwound))) := by
  obtain ⟨g, hg, hrest⟩ := steps_append ((List.take_append_drop k ops).symm ▸ hsteps)
  have hunwound := unwound_steps hrest hsize
  have hvalid := Frame.empty_valid.steps hg
  have hle := hvalid.unwound_le
  have hlength := length_unwindCodes h.encoded rfl
  have hcount := h.count
  have hdepth := Frame.steps_depth hg
  have hempty : Frame.empty.depth = 0 := rfl
  have hmax : g.depth ≤ 2 ^ 62 := by
    have htake : (ops.take k).length ≤ ops.length := List.length_take_le' ..
    have hlayout : (layout 0 ops).length = ops.length := by
      rw [← List.length_map Prod.snd, map_snd_layout]
    omega
  have hentered : m.reg .rsp = below (m.reg .rsp + BitVec.ofNat 64 f.unwound) g.unwound := by
    rw [hunwound]
    exact (BitVec.add_sub_cancel ..).symm
  obtain ⟨m', hrun, hbuilt⟩ := (Built.empty hentered).steps Frame.empty_valid hg hmax rfl
  have hrsp := hbuilt.rsp
  rw [max_eq_left hle] at hrsp
  refine ⟨m', hrun, fun m'' hrsp'' => ?_⟩
  rw [hrsp'', hrsp]
  have hall := unwindOnce_layout m''.mem (m.reg .rsp + BitVec.ofNat 64 f.unwound) h hsteps hg hsize hfound hinfo hat
  refine ⟨hall, fun hnext hmem => ?_⟩
  have hkept : ∀ x, InBlock (m.reg .rsp + BitVec.ofNat 64 f.unwound) 32 x → m''.mem x = m.mem x := by
    intro x hx
    refine (hmem x hx).trans (hbuilt.memory x fun hin => ?_)
    rw [max_eq_left hle] at hin
    have hpos : 0 < g.depth - g.unwound := Nat.zero_lt_of_lt hin
    have hapart := apart_below (m.reg .rsp + BitVec.ofNat 64 f.unwound) (d := g.depth) (e := 0)
      (n := g.depth - g.unwound) (k := 32) (.inl (by omega)) hmax (by decide) hpos (by decide) (by omega) (by decide)
    rw [BitVec.sub_zero] at hapart
    exact hapart.not_inBlock hx hin
  rwa [hnext, BitVec.add_zero, caller_congr hkept] at hall

/-- The image of `memcpy`. -/
def memcpyImage : Pe.Image where
  base := 0x400000
  functions := [⟨0x1000, 0x1010, 0x2000⟩]
  unwindInfo _ := ⟨1, 0, 2, 0, 0, fun i => (slots [1, 0x70, 0, 0x60]).getD i 0⟩

theorem memcpy_unwindable : Unwindable memcpyPrologue [1, 0x70, 0, 0x60] (memcpyImage.unwindInfo 0x2000) :=
  ⟨rfl, by decide, by decide, rfl, by decide⟩

/-- The caller of `memcpy` is found behind the prologue, and not from the second `push`. -/
theorem memcpy_unwind : ∃ m₁ m₂, Machine.run (prologueCode memcpyPrologue) entered = .done m₂ ∧
    Computes (fun fuel => Pe.unwindOnce fuel (peMemory m₂.mem) memcpyImage ⟨UInt64.ofBitVec (m₂.reg .rsp), 0x401002⟩)
      ⟨0x8010, 0⟩ ∧
    Machine.run (prologueCode (memcpyPrologue.take 1)) entered = .done m₁ ∧
    Computes (fun fuel => Pe.unwindOnce fuel (peMemory m₁.mem) memcpyImage ⟨UInt64.ofBitVec (m₁.reg .rsp), 0x401001⟩)
      ⟨0x8018, UInt64.ofBitVec (m₁.mem.load64 0x8010)⟩ := by
  have hsteps : Frame.empty.steps memcpyPrologue = some ⟨16, 0, [(16, .rdi), (8, .rsi)]⟩ := rfl
  have hfound₂ : Pe.runtimeFunctionInfo memcpyImage.functions 0x1002 = some ⟨0x1000, 0x1010, 0x2000⟩ := by decide
  have hfound₁ : Pe.runtimeFunctionInfo memcpyImage.functions 0x1001 = some ⟨0x1000, 0x1010, 0x2000⟩ := by decide
  obtain ⟨m₂, hrun₂, h₂⟩ := unwind_procedure (k := 2) memcpy_unwindable hsteps (by decide) hfound₂ rfl (.inl rfl) entered
  obtain ⟨m₁, hrun₁, h₁⟩ := unwind_procedure (k := 1) memcpy_unwindable hsteps (by decide) hfound₁ rfl (.inl rfl) entered
  exact ⟨m₁, m₂, hrun₂, (h₂ m₂ rfl).2 rfl fun _ _ => rfl, hrun₁, (h₁ m₁ rfl).1⟩

end Result

end Attos.Asm
