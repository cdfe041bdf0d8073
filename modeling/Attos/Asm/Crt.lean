import Attos.Asm.Win64Proc
import Attos.Lib.StringOps

/-!
# Block operations

`memset`, `memcpy` and `memcmp` are one repeated string instruction each, in a procedure that saves
`rsi` and `rdi` (`crtProc_returns`). They return to their caller if the block that they write is not
on the stack above the caller's, where the return address is. None of them sets `rax` to the pointer that it is declared to
return, and no caller reads it.

`memcmp` compares in the order of the addresses, and returns the difference of the first bytes that
differ, as a signed byte (`memcmp_first`). If there is nothing to compare, `repe cmpsb` leaves the
zero flag as it is, and so the result depends on what the caller did before (`memcmp_nothing`).
-/

namespace Attos.Asm

open Lib Lib.X64

/-! ## String instructions -/

/-- Where a string instruction goes on. -/
def stringNext (flags : Word) (a : Word) : Word := if flags &&& directionFlag = 0 then a + 1 else a - 1

/-- `rep stosb` -/
def repStosb (m : Machine) : Machine :=
  let next := stringNext m.flags
  let count := (m.reg .rcx).toNat
  { (m.set .rdi (next^[count] (m.reg .rdi))).set .rcx 0 with
    mem := stos next (byteOf (m.reg .rax) 0) count m.mem (m.reg .rdi) }

/-- `rep movsb` -/
def repMovsb (m : Machine) : Machine :=
  let next := stringNext m.flags
  let count := (m.reg .rcx).toNat
  { ((m.set .rsi (next^[count] (m.reg .rsi))).set .rdi (next^[count] (m.reg .rdi))).set .rcx 0 with
    mem := movs next count m.mem (m.reg .rsi) (m.reg .rdi) }

/-- `repe cmpsb`: the zero flag, and the addresses behind the last bytes. -/
def repeCmpsb (m : Machine) : Bool × Word × Word :=
  cmps (stringNext m.flags) m.mem (m.reg .rcx).toNat (m.flags.getLsbD 6) (m.reg .rsi) (m.reg .rdi)

/-! ## Procedures -/

/-- A procedure with the prologue of `memcpy`, a body, its epilogue and `ret`. -/
def crtProc (body : Machine → Machine) (m : Machine) : Outcome Machine := do
  let m ← Machine.run (prologueCode memcpyPrologue) m
  match win64Epilogue (layout 0 memcpyPrologue) with
  | some epilogue => do
    let m ← Machine.run epilogue (body m)
    pure m.ret
  | none => .abort

/-- `mov al, dl` -/
def movAlDl (m : Machine) : Machine := m.set .rax ((m.reg .rax &&& ~~~0xff) ||| (m.reg .rdx &&& 0xff))

/-- `memset`, between its prologue and its epilogue -/
def memsetBody (m : Machine) : Machine :=
  repStosb (movAlDl ((m.set .rdi (m.reg .rcx)).set .rcx (m.reg .r8)))

/-- `memset` -/
def memset : Machine → Outcome Machine := crtProc memsetBody

/-- The arguments of `memcpy` and `memcmp`, where the string instructions expect them. -/
def movArgs (m : Machine) : Machine :=
  ((m.set .rdi (m.reg .rcx)).set .rsi (m.reg .rdx)).set .rcx (m.reg .r8)

/-- `memcpy` -/
def memcpy : Machine → Outcome Machine := crtProc fun m => repMovsb (movArgs m)

/-- `movsx eax, al` -/
def movsxEaxAl (al : UInt8) : Word := (al.toBitVec.signExtend 32).setWidth 64

/-- `al` at the end of `memcmp`: the difference of the last bytes, unless all are equal. -/
def memcmpAl (mem : Ram) : Bool × Word × Word → UInt8
  | (equal, rsi, rdi) => if equal then 0 else mem (rdi - 1) - mem (rsi - 1)

/-- `memcmp`, between its prologue and its epilogue. What is left in `rcx` and in the flags is
not modelled, and no caller reads it. -/
def memcmpBody (m : Machine) : Machine :=
  let m := movArgs m
  let last := repeCmpsb m
  ((m.set .rsi last.2.1).set .rdi last.2.2).set .rax (movsxEaxAl (memcmpAl m.mem last))

/-- `memcmp` -/
def memcmp : Machine → Outcome Machine := crtProc memcmpBody

/-! ## What the procedures keep -/

/-- The stack below the caller that holds the saved registers. -/
abbrev InFrame (m : Machine) (x : Word) : Prop := InBlock (m.reg .rsp - 16) 16 x

/-- The saved registers, and the return address above them. -/
abbrev InStack (m : Machine) (x : Word) : Prop := InBlock (m.reg .rsp - 16) 24 x

/-- The machine `m'` is behind the prologue. -/
structure EnteredFrom (m m' : Machine) : Prop where
  /-- the stack pointer is at the saved registers -/
  rsp : m'.reg .rsp = m.reg .rsp - 16
  /-- the other registers are as they were -/
  reg : ∀ r, r ≠ .rsp → m'.reg r = m.reg r
  /-- so are the flags -/
  flags : m'.flags = m.flags
  /-- memory is written in the frame only -/
  memory : ∀ x, ¬ InFrame m x → m'.mem x = m.mem x

/-- The registers that a procedure keeps, other than the stack pointer. -/
def Nonvolatile (r : Reg) : Prop :=
  r ∈ [Reg.rbx, .rbp, .rsi, .rdi, .r12, .r13, .r14, .r15]

instance : DecidablePred Nonvolatile := fun r => inferInstanceAs (Decidable (r ∈ _))

/-- The machine `m'` has returned to the caller of the procedure that `m` has entered. -/
structure ReturnedTo (m m' : Machine) : Prop where
  /-- it goes on behind the call -/
  rip : m'.rip = m.top
  /-- the stack pointer is what it was before the call -/
  rsp : m'.reg .rsp = m.reg .rsp + 8
  /-- the other registers that are kept -/
  reg : ∀ r, Nonvolatile r → m'.reg r = m.reg r

/-- The registers that a body changes. -/
def Scratch (r : Reg) : Prop := r ∈ [Reg.rax, .rcx, .rsi, .rdi]

instance : DecidablePred Scratch := fun r => inferInstanceAs (Decidable (r ∈ _))

section Procedures

variable {m : Machine} {body : Machine → Machine}

theorem InFrame.inStack {x : Word} (h : InFrame m x) : InStack m x := h.trans (by decide)

/-- The return address is above the saved registers. -/
theorem inStack_return {x : Word} (h : InBlock (m.reg .rsp) 8 x) : InStack m x ∧ ¬ InFrame m x := by
  have hbelow : InBlock (m.reg .rsp - BitVec.ofNat 64 0) 8 x := by rwa [BitVec.sub_zero]
  have hapart : Lib.Apart (m.reg .rsp - BitVec.ofNat 64 16) 16 (m.reg .rsp - BitVec.ofNat 64 0) 8 :=
    apart_below _ (.inl (by decide)) (by decide) (by decide) (by decide) (by decide) (by decide) (by decide)
  exact ⟨inBlock_below hbelow (by decide) (by decide) (by decide), hapart.not_inBlock hbelow⟩

/-- **A procedure returns** with what the body did, if the body leaves the saved registers and the
return address as they are. -/
theorem crtProc_returns (hreg : ∀ m₁ r, ¬ Scratch r → (body m₁).reg r = m₁.reg r)
    (hstack : ∀ m₁, EnteredFrom m m₁ → ∀ x, InStack m x → (body m₁).mem x = m₁.mem x) :
    ∃ m₁ m', EnteredFrom m m₁ ∧ crtProc body m = .done m' ∧ ReturnedTo m m' ∧
      m'.reg .rax = (body m₁).reg .rax ∧ m'.mem = (body m₁).mem := by
  have hsteps : Frame.empty.steps ((layout 0 memcpyPrologue).map Prod.snd) =
      some ⟨16, 0, [(16, .rdi), (8, .rsi)]⟩ := rfl
  obtain ⟨m₁, epilogue, hrun, hepilogue, hrsp, hregs, hmem, hleave⟩ :=
    procedure_keeps hsteps (List.cons_ne_nil _ _) (by decide) m
  have hflags : m₁.flags = m.flags := by
    cases hrun
    rfl
  have hentered : EnteredFrom m m₁ := by
    refine ⟨hrsp, hregs, hflags, fun x hx => hmem x ?_⟩
    rw [hrsp]
    exact hx
  have hkept : ∀ x, InBlock (m₁.reg .rsp) 16 x → (body m₁).mem x = m₁.mem x := by
    rw [hrsp]
    exact fun x hx => hstack m₁ hentered x (InFrame.inStack hx)
  obtain ⟨m₂, hundo, hback, hsaved, hrest, hmem'⟩ := hleave (body m₁) (hreg m₁ .rsp (by decide)) hkept
  have hrsp' : m₂.reg .rsp = m.reg .rsp := hback.trans (BitVec.add_zero _)
  have hcode : Machine.run (prologueCode memcpyPrologue) m = .done m₁ := hrun
  have hother {r : Reg} (hr : r ≠ .rsp) : m₂.ret.reg r = m₂.reg r := Machine.set_reg_ne _ _ hr
  refine ⟨m₁, m₂.ret, hentered, ?_, ⟨?_, ?_, fun r hr => ?_⟩, ?_, hmem'⟩
  · rw [crtProc, hcode, Outcome.done_bind, hepilogue]
    dsimp only
    rw [hundo]
    rfl
  · -- Neither the prologue nor the body has written to the return address.
    have hreturn : m₂.mem.load64 (m.reg .rsp) = m.mem.load64 (m.reg .rsp) := by
      rw [hmem']
      refine Ram.load64_congr fun x hx => ?_
      obtain ⟨hin, hout⟩ := inStack_return hx
      exact (hstack m₁ hentered x hin).trans (hentered.memory x hout)
    change m₂.mem.load64 (m₂.reg .rsp) = m.mem.load64 (m.reg .rsp)
    rw [hrsp', hreturn]
  · rw [← hrsp']
    exact Machine.set_reg_self m₂ .rsp (m₂.reg .rsp + 8)
  · have hne : r ≠ .rsp := by
      rintro rfl
      exact absurd hr (by decide)
    rw [hother hne]
    by_cases hsaves : r = .rsi ∨ r = .rdi
    · refine hsaved r ?_
      obtain rfl | rfl := hsaves <;> decide
    · obtain ⟨hrsi, hrdi⟩ := not_or.mp hsaves
      have hfree : ¬ (⟨16, 0, [(16, .rdi), (8, .rsi)]⟩ : Frame).Saves r := by
        rintro hin
        obtain h | h := List.mem_pair.mp hin
        · exact hrdi h
        · exact hrsi h
      have hscratch : ¬ Scratch r := by
        cases r <;> first | exact absurd hr (by decide) | exact absurd rfl hrsi | exact absurd rfl hrdi | decide
      exact (hrest r hne hfree).trans ((hreg m₁ r hscratch).trans (hregs r hne))
  · exact (hother (by decide)).trans (hrest .rax (by decide) (by decide))

end Procedures

/-! ## Addresses -/

section Addresses

variable {flags a b x : Word} {n i j : ℕ}

/-- Without the direction flag, a string instruction goes to higher addresses. -/
theorem stringNext_iterate (h : flags &&& directionFlag = 0) (a : Word) (i : ℕ) :
    (stringNext flags)^[i] a = a + BitVec.ofNat 64 i := by
  induction i with
  | zero => exact (BitVec.add_zero a).symm
  | succ i ih => rw [Function.iterate_succ_apply', ih, stringNext, if_pos h, BitVec.ofNat_add, BitVec.add_assoc]; rfl

theorem add_ofNat_inj (a : Word) (hi : i < 2 ^ 64) (hj : j < 2 ^ 64)
    (h : a + BitVec.ofNat 64 i = a + BitVec.ofNat 64 j) : i = j := by
  rw [← add_sub_toNat a hi, h, add_sub_toNat a hj]

/-- Different steps go to different addresses. -/
theorem stringNext_inj (h : flags &&& directionFlag = 0) (hn : n ≤ 2 ^ 64) :
    ∀ i < n, ∀ j < n, (stringNext flags)^[i] a = (stringNext flags)^[j] a → i = j := by
  intro i hi j hj heq
  rw [stringNext_iterate h, stringNext_iterate h] at heq
  exact add_ofNat_inj a (hi.trans_le hn) (hj.trans_le hn) heq

/-- What is not in a block is not reached in it. -/
theorem ne_stringNext (h : flags &&& directionFlag = 0) (hn : n ≤ 2 ^ 64) (hx : ¬ InBlock a n x) :
    ∀ i < n, x ≠ (stringNext flags)^[i] a := by
  rintro i hi rfl
  rw [stringNext_iterate h] at hx
  exact hx (inBlock_add a hi hn)

/-- The last byte is one step in front of where a string instruction stops. -/
theorem stringNext_back (h : flags &&& directionFlag = 0) (a : Word) (i : ℕ) :
    (stringNext flags)^[i + 1] a - 1 = a + BitVec.ofNat 64 i := by
  rw [stringNext_iterate h, BitVec.ofNat_add, ← BitVec.add_assoc]
  exact BitVec.add_sub_cancel ..

end Addresses

/-! ## What the procedures do -/

theorem byteOf_zero (w : Word) : byteOf w 0 = UInt8.ofBitVec (w.setWidth 8) := by
  apply UInt8.toNat_inj.mp
  rw [byteOf, pow_zero, Nat.div_one, UInt8.toNat_ofNat', UInt8.toNat_ofBitVec, BitVec.toNat_setWidth]

/-- The low byte is replaced. -/
theorem byteOf_movAlDl (a b : Word) : byteOf ((a &&& ~~~0xff) ||| (b &&& 0xff)) 0 = byteOf b 0 := by
  have hclear : (~~~0xff : Word).setWidth 8 = 0#8 := by decide
  have hkeep : (0xff : Word).setWidth 8 = BitVec.allOnes 8 := by decide
  have hlow : ((a &&& ~~~0xff) ||| (b &&& 0xff)).setWidth 8 = b.setWidth 8 := by
    rw [BitVec.setWidth_or, BitVec.setWidth_and, BitVec.setWidth_and, hclear, hkeep, BitVec.and_zero,
      BitVec.zero_or, BitVec.and_allOnes]
  rw [byteOf_zero, byteOf_zero, hlow]

section Bodies

variable (m : Machine)

theorem memsetBody_mem : (memsetBody m).mem =
    stos (stringNext m.flags) (byteOf (m.reg .rdx) 0) (m.reg .r8).toNat m.mem (m.reg .rcx) := by
  have hbyte : byteOf ((movAlDl ((m.set .rdi (m.reg .rcx)).set .rcx (m.reg .r8))).reg .rax) 0 = byteOf (m.reg .rdx) 0 :=
    byteOf_movAlDl _ _
  exact congrArg (fun b => stos (stringNext m.flags) b (m.reg .r8).toNat m.mem (m.reg .rcx)) hbyte

theorem memcpyBody_mem : (repMovsb (movArgs m)).mem =
    movs (stringNext m.flags) (m.reg .r8).toNat m.mem (m.reg .rdx) (m.reg .rcx) := rfl

theorem memcmpBody_rax : (memcmpBody m).reg .rax = movsxEaxAl (memcmpAl m.mem
    (cmps (stringNext m.flags) m.mem (m.reg .r8).toNat (m.flags.getLsbD 6) (m.reg .rdx) (m.reg .rcx))) := rfl

theorem body_scratch {r : Reg} (hr : ¬ Scratch r) : (memsetBody m).reg r = m.reg r ∧
    (repMovsb (movArgs m)).reg r = m.reg r ∧ (memcmpBody m).reg r = m.reg r := by
  cases r <;> first | exact absurd (by decide) hr | exact ⟨rfl, rfl, rfl⟩

end Bodies

section Results

variable {m : Machine}

/-- The block of an argument. -/
abbrev InArg (m : Machine) (r : Reg) (x : Word) : Prop := InBlock (m.reg r) (m.reg .r8).toNat x

/-- **`memset`** stores the byte to all of the block, and changes nothing else. -/
theorem memset_fills (hforward : m.flags &&& directionFlag = 0) (hdest : ∀ x, InArg m .rcx x → ¬ InStack m x) :
    ∃ m', memset m = .done m' ∧ ReturnedTo m m' ∧
      (∀ x, InArg m .rcx x → m'.mem x = byteOf (m.reg .rdx) 0) ∧
      ∀ x, ¬ InArg m .rcx x → ¬ InFrame m x → m'.mem x = m.mem x := by
  have hcount : (m.reg .r8).toNat ≤ 2 ^ 64 := (m.reg .r8).isLt.le
  have hmem : ∀ m₁, EnteredFrom m m₁ → (memsetBody m₁).mem =
      stos (stringNext m.flags) (byteOf (m.reg .rdx) 0) (m.reg .r8).toNat m₁.mem (m.reg .rcx) := by
    intro m₁ h
    rw [memsetBody_mem, h.flags, h.reg .rdx (by decide), h.reg .r8 (by decide), h.reg .rcx (by decide)]
  have hother : ∀ m₁, EnteredFrom m m₁ → ∀ x, ¬ InArg m .rcx x → (memsetBody m₁).mem x = m₁.mem x := by
    intro m₁ h x hx
    rw [hmem m₁ h]
    exact stos_other (ne_stringNext hforward hcount hx)
  obtain ⟨m₁, m', h, hrun, hkept, -, hmem'⟩ := crtProc_returns (fun m₁ r hr => (body_scratch m₁ hr).1)
    fun m₁ h x hx => hother m₁ h x fun hin => hdest x hin hx
  refine ⟨m', hrun, hkept, fun x hx => ?_, fun x hx hframe => ?_⟩
  · obtain ⟨i, hi, rfl⟩ := hx.exists_add
    rw [hmem', hmem m₁ h, ← stringNext_iterate hforward]
    exact stos_dest hi
  · rw [hmem', hother m₁ h x hx, h.memory x hframe]

/-- A place of a block that is not in the frame is as it was behind the prologue. -/
theorem EnteredFrom.arg {m₁ : Machine} {r : Reg} {i : ℕ} (h : EnteredFrom m m₁)
    (hblock : ∀ x, InArg m r x → ¬ InFrame m x) (hi : i < (m.reg .r8).toNat) :
    m₁.mem (m.reg r + BitVec.ofNat 64 i) = m.mem (m.reg r + BitVec.ofNat 64 i) :=
  h.memory _ (hblock _ (inBlock_add _ hi (m.reg .r8).isLt.le))

section Copy

theorem memcpyBody_entered {m₁ : Machine} (h : EnteredFrom m m₁) : (repMovsb (movArgs m₁)).mem =
    movs (stringNext m.flags) (m.reg .r8).toNat m₁.mem (m.reg .rdx) (m.reg .rcx) := by
  rw [memcpyBody_mem, h.flags, h.reg .rdx (by decide), h.reg .r8 (by decide), h.reg .rcx (by decide)]

/-- `memcpy` returns, and changes the destination only. -/
theorem memcpy_returns (hforward : m.flags &&& directionFlag = 0) (hdest : ∀ x, InArg m .rcx x → ¬ InStack m x) :
    ∃ m₁ m', EnteredFrom m m₁ ∧ memcpy m = .done m' ∧ ReturnedTo m m' ∧
      (∀ x, ¬ InArg m .rcx x → ¬ InFrame m x → m'.mem x = m.mem x) ∧
      m'.mem = movs (stringNext m.flags) (m.reg .r8).toNat m₁.mem (m.reg .rdx) (m.reg .rcx) := by
  have hother : ∀ m₁, EnteredFrom m m₁ → ∀ x, ¬ InArg m .rcx x → (repMovsb (movArgs m₁)).mem x = m₁.mem x := by
    intro m₁ h x hx
    rw [memcpyBody_entered h]
    exact movs_other (ne_stringNext hforward (m.reg .r8).isLt.le hx)
  obtain ⟨m₁, m', h, hrun, hkept, -, hmem'⟩ := crtProc_returns (fun m₁ r hr => (body_scratch m₁ hr).2.1)
    fun m₁ h x hx => hother m₁ h x fun hin => hdest x hin hx
  refine ⟨m₁, m', h, hrun, hkept, fun x hx hframe => ?_, hmem'.trans (memcpyBody_entered h)⟩
  rw [hmem', hother m₁ h x hx, h.memory x hframe]

/-- **`memcpy`** copies the source if no byte of it is overwritten before it is read, and changes
nothing else. -/
theorem memcpy_copies (hforward : m.flags &&& directionFlag = 0) (hdest : ∀ x, InArg m .rcx x → ¬ InStack m x)
    (hsrc : ∀ x, InArg m .rdx x → ¬ InFrame m x) (hahead : ∀ i < (m.reg .r8).toNat, ∀ j < i,
      m.reg .rdx + BitVec.ofNat 64 i ≠ m.reg .rcx + BitVec.ofNat 64 j) :
    ∃ m', memcpy m = .done m' ∧ ReturnedTo m m' ∧
      (∀ i < (m.reg .r8).toNat, m'.mem (m.reg .rcx + BitVec.ofNat 64 i) = m.mem (m.reg .rdx + BitVec.ofNat 64 i)) ∧
      ∀ x, ¬ InArg m .rcx x → ¬ InFrame m x → m'.mem x = m.mem x := by
  obtain ⟨m₁, m', h, hrun, hkept, hother, hmem⟩ := memcpy_returns hforward hdest
  refine ⟨m', hrun, hkept, fun i hi => ?_, hother⟩
  have hbefore : ∀ i < (m.reg .r8).toNat, ∀ j < i,
      (stringNext m.flags)^[i] (m.reg .rdx) ≠ (stringNext m.flags)^[j] (m.reg .rcx) := by
    intro i hi j hj
    rw [stringNext_iterate hforward, stringNext_iterate hforward]
    exact hahead i hi j hj
  rw [hmem, ← stringNext_iterate hforward, movs_apart (stringNext_inj hforward (m.reg .r8).isLt.le) hbefore hi,
    stringNext_iterate hforward]
  exact h.arg hsrc hi

/-- A machine that enters a procedure, with numbers in its memory. -/
def numbered : Machine := { entered with mem := fun x => byteOf x 0 }

/-- The blocks of `numbered` are not on the stack. -/
theorem numbered_apart {r : Reg} (hr : r = .rcx ∨ r = .rdx) : ∀ x, InArg numbered r x → ¬ InStack numbered x := by
  intro x hx
  have hapart : Lib.Apart (numbered.reg .rsp - 16) 24 (numbered.reg r) (numbered.reg .r8).toNat := by
    obtain rfl | rfl := hr <;> exact ⟨by decide, by decide⟩
  exact hapart.not_inBlock hx

theorem numbered_apart_frame {r : Reg} (hr : r = .rcx ∨ r = .rdx) :
    ∀ x, InArg numbered r x → ¬ InFrame numbered x :=
  fun x hx hframe => numbered_apart hr x hx (InFrame.inStack hframe)

/-- Eight bytes are moved down by one. -/
theorem memcpy_copies_down : ∃ m', memcpy numbered = .done m' ∧ m'.mem 1 = 2 ∧ m'.mem 8 = 9 ∧ m'.mem 9 = 9 ∧
    m'.rip = 0x0f0e0d0c0b0a0908 := by
  have hahead : ∀ i < (numbered.reg .r8).toNat, ∀ j < i,
      numbered.reg .rdx + BitVec.ofNat 64 i ≠ numbered.reg .rcx + BitVec.ofNat 64 j := by decide
  obtain ⟨m', hrun, hreturned, hcopied, hother⟩ :=
    memcpy_copies (by decide) (numbered_apart (.inl rfl)) (numbered_apart_frame (.inr rfl)) hahead
  exact ⟨m', hrun, hcopied 0 (by decide), hcopied 7 (by decide), hother 9 (by decide) (by decide), hreturned.rip⟩

/-- **`memcpy` repeats** the first bytes if the destination begins `k` bytes behind the source: it
goes forward whatever the addresses are, so it is no `memmove`. -/
theorem memcpy_repeats {k : ℕ} (hforward : m.flags &&& directionFlag = 0) (hk : 0 < k)
    (hle : k + (m.reg .r8).toNat ≤ 2 ^ 64) (hbehind : m.reg .rcx = m.reg .rdx + BitVec.ofNat 64 k)
    (hdest : ∀ x, InArg m .rcx x → ¬ InStack m x) (hsrc : ∀ x, InArg m .rdx x → ¬ InFrame m x) :
    ∃ m', memcpy m = .done m' ∧ ∀ i < (m.reg .r8).toNat,
      m'.mem (m.reg .rcx + BitVec.ofNat 64 i) = m.mem (m.reg .rdx + BitVec.ofNat 64 (i % k)) := by
  obtain ⟨m₁, m', h, hrun, -, -, hmem⟩ := memcpy_returns hforward hdest
  refine ⟨m', hrun, fun i hi => ?_⟩
  have hdst : m.reg .rcx = (stringNext m.flags)^[k] (m.reg .rdx) := by
    rw [stringNext_iterate hforward, hbehind]
  rw [hmem, ← stringNext_iterate hforward, movs_overlap hk hdst (stringNext_inj hforward hle) hi,
    stringNext_iterate hforward]
  exact h.arg hsrc ((Nat.mod_le i k).trans_lt hi)

end Copy

section Compare

theorem movsxEaxAl_eq_zero {al : UInt8} : movsxEaxAl al = 0 ↔ al = 0 := by
  obtain ⟨al⟩ := al
  revert al
  decide

theorem byte_sub_eq_zero {a b : UInt8} : a - b = 0 ↔ a = b := by
  constructor <;> intro h <;> grind

/-- `memcmp` returns, and changes no memory of the caller. -/
theorem memcmp_returns (m : Machine) : ∃ m₁ m', EnteredFrom m m₁ ∧ memcmp m = .done m' ∧
    ReturnedTo m m' ∧ (∀ x, ¬ InFrame m x → m'.mem x = m.mem x) ∧
    m'.reg .rax = movsxEaxAl (memcmpAl m₁.mem (cmps (stringNext m.flags) m₁.mem (m.reg .r8).toNat
      (m.flags.getLsbD 6) (m.reg .rdx) (m.reg .rcx))) := by
  obtain ⟨m₁, m', h, hrun, hkept, hrax, hmem⟩ := crtProc_returns (m := m) (fun m₁ r hr => (body_scratch m₁ hr).2.2)
    fun _ _ _ _ => rfl
  refine ⟨m₁, m', h, hrun, hkept, fun x hx => ?_, ?_⟩
  · rw [hmem]
    exact h.memory x hx
  · rw [hrax, memcmpBody_rax, h.flags, h.reg .rdx (by decide), h.reg .r8 (by decide), h.reg .rcx (by decide)]

variable {m₁ : Machine} (h : EnteredFrom m m₁) (hforward : m.flags &&& directionFlag = 0)
  (hp₁ : ∀ x, InArg m .rcx x → ¬ InFrame m x) (hp₂ : ∀ x, InArg m .rdx x → ¬ InFrame m x)
include h hforward hp₁ hp₂

/-- The bytes that `repe cmpsb` compares. -/
theorem compared {i : ℕ} (hi : i < (m.reg .r8).toNat) :
    (m₁.mem ((stringNext m.flags)^[i] (m.reg .rdx)) = m₁.mem ((stringNext m.flags)^[i] (m.reg .rcx))) ↔
      m.mem (m.reg .rcx + BitVec.ofNat 64 i) = m.mem (m.reg .rdx + BitVec.ofNat 64 i) := by
  rw [stringNext_iterate hforward, stringNext_iterate hforward, h.arg hp₂ hi, h.arg hp₁ hi]
  exact eq_comm

/-- Equal blocks. -/
theorem memcmpAl_of_eq {zf : Bool} (hpos : 0 < (m.reg .r8).toNat) (heq : ∀ i < (m.reg .r8).toNat,
      m.mem (m.reg .rcx + BitVec.ofNat 64 i) = m.mem (m.reg .rdx + BitVec.ofNat 64 i)) :
    memcmpAl m₁.mem (cmps (stringNext m.flags) m₁.mem (m.reg .r8).toNat zf (m.reg .rdx) (m.reg .rcx)) = 0 := by
  rw [cmps_of_eq hpos fun i hi => (compared h hforward hp₁ hp₂ hi).mpr (heq i hi)]
  rfl

/-- Blocks that differ. -/
theorem memcmpAl_of_ne {zf : Bool} {i : ℕ} (hi : i < (m.reg .r8).toNat)
    (heq : ∀ j < i, m.mem (m.reg .rcx + BitVec.ofNat 64 j) = m.mem (m.reg .rdx + BitVec.ofNat 64 j))
    (hne : m.mem (m.reg .rcx + BitVec.ofNat 64 i) ≠ m.mem (m.reg .rdx + BitVec.ofNat 64 i)) :
    memcmpAl m₁.mem (cmps (stringNext m.flags) m₁.mem (m.reg .r8).toNat zf (m.reg .rdx) (m.reg .rcx)) =
      m.mem (m.reg .rcx + BitVec.ofNat 64 i) - m.mem (m.reg .rdx + BitVec.ofNat 64 i) := by
  have hbefore : ∀ j < i, m₁.mem ((stringNext m.flags)^[j] (m.reg .rdx)) =
      m₁.mem ((stringNext m.flags)^[j] (m.reg .rcx)) :=
    fun j hj => (compared h hforward hp₁ hp₂ (hj.trans hi)).mpr (heq j hj)
  rw [cmps_of_ne hi hbefore fun h' => hne ((compared h hforward hp₁ hp₂ hi).mp h')]
  change m₁.mem ((stringNext m.flags)^[i + 1] (m.reg .rcx) - 1) -
    m₁.mem ((stringNext m.flags)^[i + 1] (m.reg .rdx) - 1) = _
  rw [stringNext_back hforward, stringNext_back hforward, h.arg hp₂ hi, h.arg hp₁ hi]

omit h

/-- **`memcmp` of blocks that differ** is the difference of the first bytes that differ, as a signed
byte. So its sign is that of the comparison only if the bytes are less than 128 apart. -/
theorem memcmp_first {i : ℕ} (hi : i < (m.reg .r8).toNat)
    (heq : ∀ j < i, m.mem (m.reg .rcx + BitVec.ofNat 64 j) = m.mem (m.reg .rdx + BitVec.ofNat 64 j))
    (hne : m.mem (m.reg .rcx + BitVec.ofNat 64 i) ≠ m.mem (m.reg .rdx + BitVec.ofNat 64 i)) :
    ∃ m', memcmp m = .done m' ∧ m'.reg .rax =
      movsxEaxAl (m.mem (m.reg .rcx + BitVec.ofNat 64 i) - m.mem (m.reg .rdx + BitVec.ofNat 64 i)) := by
  obtain ⟨m₁, m', h, hrun, -, -, hrax⟩ := memcmp_returns m
  exact ⟨m', hrun, hrax.trans (congrArg movsxEaxAl (memcmpAl_of_ne h hforward hp₁ hp₂ hi heq hne))⟩

/-- **`memcmp` of some bytes** is zero exactly if the blocks are equal. -/
theorem memcmp_zero_iff (hpos : 0 < (m.reg .r8).toNat) :
    ∃ m', memcmp m = .done m' ∧ ReturnedTo m m' ∧
      (∀ x, ¬ InFrame m x → m'.mem x = m.mem x) ∧ (m'.reg .rax = 0 ↔ ∀ i < (m.reg .r8).toNat,
        m.mem (m.reg .rcx + BitVec.ofNat 64 i) = m.mem (m.reg .rdx + BitVec.ofNat 64 i)) := by
  obtain ⟨m₁, m', h, hrun, hkept, hmem, hrax⟩ := memcmp_returns m
  refine ⟨m', hrun, hkept, hmem, ?_⟩
  rw [hrax, movsxEaxAl_eq_zero]
  constructor
  · intro hzero
    by_contra hdiffer
    push Not at hdiffer
    -- the first bytes that differ
    classical
    obtain ⟨hi, hne⟩ := Nat.find_spec hdiffer
    have heq : ∀ j < Nat.find hdiffer,
        m.mem (m.reg .rcx + BitVec.ofNat 64 j) = m.mem (m.reg .rdx + BitVec.ofNat 64 j) := by
      intro j hj
      by_contra hnej
      exact Nat.find_min hdiffer hj ⟨hj.trans hi, hnej⟩
    rw [memcmpAl_of_ne h hforward hp₁ hp₂ hi heq hne] at hzero
    exact hne (byte_sub_eq_zero.mp hzero)
  · exact memcmpAl_of_eq h hforward hp₁ hp₂ hpos

omit hforward hp₁ hp₂

/-- Blocks of different numbers. -/
theorem memcmp_zero_iff_numbered : ∃ m', memcmp numbered = .done m' ∧ m'.reg .rax ≠ 0 := by
  obtain ⟨m', hrun, -, -, hzero⟩ :=
    memcmp_zero_iff (by decide) (numbered_apart_frame (.inl rfl)) (numbered_apart_frame (.inr rfl)) (by decide)
  exact ⟨m', hrun, fun h => absurd (hzero.mp h 0 (by decide)) (by decide)⟩

/-- **`memcmp` of nothing** is zero if the zero flag happens to be set, and compares the bytes in
front of the blocks if not. -/
theorem memcmp_nothing (hcount : m.reg .r8 = 0) (hp₁ : ¬ InFrame m (m.reg .rcx - 1))
    (hp₂ : ¬ InFrame m (m.reg .rdx - 1)) :
    ∃ m', memcmp m = .done m' ∧ m'.reg .rax =
      if m.flags.getLsbD 6 then 0 else movsxEaxAl (m.mem (m.reg .rcx - 1) - m.mem (m.reg .rdx - 1)) := by
  obtain ⟨m₁, m', h, hrun, -, -, hrax⟩ := memcmp_returns m
  refine ⟨m', hrun, ?_⟩
  rw [hrax, hcount, ← h.memory _ hp₁, ← h.memory _ hp₂]
  cases m.flags.getLsbD 6 <;> rfl

end Compare

end Results

end Attos.Asm
