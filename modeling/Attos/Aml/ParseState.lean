import Attos.Aml.NameSpace
import Attos.Lib.Word

/-!
# The input of the AML parser

A `parse_state` is a view of the bytes that are still to be parsed, given by the
addresses of its begin and its end. Most functions take bytes from its front
(`consume`); name segments and strings are also read through the begin pointer.
-/

namespace Attos.Aml

open Lib Outcome

/-- The byte at an address. An access that faults does not return one. -/
abbrev Memory := ℕ → Outcome UInt8

/-- Memory that holds nothing but some bytes. -/
def Memory.ofList (bytes : List UInt8) : Memory := fun a =>
  match bytes[a]? with
  | some b => done b
  | none => abort

/-- The bytes from an address on. -/
def Memory.read (mem : Memory) : ℕ → ℕ → Outcome (List UInt8)
  | _, 0 => pure []
  | a, n + 1 => do
      let b ← mem a
      let l ← mem.read (a + 1) n
      pure (b :: l)

/-- A string: the bytes up to the first NUL. -/
def Memory.readString (mem : Memory) : ℕ → ℕ → Outcome Name
  | 0, _ => running
  | fuel + 1, a => do
      let c ← mem a
      if c = 0 then pure [] else do
        let text ← mem.readString fuel (a + 1)
        pure (c :: text)

/-- `hexdump`, which reads the bytes that it prints. When they end at the end of the
address space its loop is not entered. -/
def hexdump (mem : Memory) (ptr len : ℕ) : Outcome Unit :=
  if ptr + len + 15 < 2 ^ 64 then do
    let _ ← mem.read ptr len
    pure ()
  else
    pure ()

/-- `parse_state` -/
structure ParseState : Type where
  /-- `begin()` -/
  begin_ : ℕ
  /-- `end()` -/
  end_ : ℕ
  deriving DecidableEq

namespace ParseState

variable (mem : Memory) (data : ParseState)

/-- `size` -/
def size : ℕ := data.end_ - data.begin_

/-- `peek` -/
def peek : Outcome UInt8 := do
  require (data.size ≠ 0)
  mem data.begin_

/-- `peek_opcode` -/
def peekOpcode : Outcome Opcode := do
  let firstByte ← data.peek mem
  if Opcode.ofNat firstByte.toNat = .extPrefix then do
    require (2 ≤ data.size)
    let secondByte ← mem (data.begin_ + 1)
    pure (Opcode.ofNat ((firstByte.toNat <<< 8) ||| secondByte.toNat))
  else
    pure (Opcode.ofNat firstByte.toNat)

/-- `consume` of a number of bytes -/
def skip (size : ℕ) : Outcome ParseState := do
  require (size ≤ data.size)
  pure ⟨data.begin_ + size, data.end_⟩

/-- `consume` of one byte -/
def consume : Outcome (UInt8 × ParseState) := do
  let rest ← data.skip 1
  let b ← mem data.begin_
  pure (b, rest)

/-- `consume_word`, `consume_dword` and `consume_qword`: a little endian number of a
number of bytes -/
def consumeNumber (size : ℕ) : Outcome (ℕ × ParseState) := do
  let rest ← data.skip size
  let bytes ← mem.read data.begin_ size
  pure (bytes.foldr (fun b n => b.toNat + 256 * n) 0, rest)

/-- `consume_opcode` -/
def consumeOpcode : Outcome (Opcode × ParseState) := do
  let op ← data.peekOpcode mem
  let (_, data) ← data.consume mem
  if op.isExtended then do
    let (_, data) ← data.consume mem
    pure (op, data)
  else
    pure (op, data)

/-- `moved_to` -/
def movedTo (newBegin : ℕ) : ParseState := ⟨newBegin, data.end_⟩

end ParseState

variable (mem : Memory)

/-- `parse_pkg_length` -/
def parsePkgLength (data : ParseState) : Outcome (ParseState × ℕ) := do
  let (b0, data) ← data.consume mem
  match b0.toNat >>> 6 with
  | 0 => pure (data, b0.toNat)
  | 1 => do
      let (b1, data) ← data.consume mem
      pure (data, (b0.toNat &&& 0xf) ||| (b1.toNat <<< 4))
  | 2 => do
      let (b1, data) ← data.consumeNumber mem 2
      pure (data, (b0.toNat &&& 0xf) ||| (b1 <<< 4))
  | _ => abort

/-- `adjust_with_pkg_length` -/
def adjustWithPkgLength (data : ParseState) : Outcome ParseState := do
  let b0 ← data.peek mem
  let pkgLengthBytes := 1 + (b0.toNat >>> 6)
  let (pkgData, pkgLen) ← parsePkgLength mem data
  require (pkgLengthBytes ≤ pkgLen)
  require (pkgLen ≤ data.size)
  pure ⟨pkgData.begin_, pkgData.begin_ + pkgLen - pkgLengthBytes⟩

/-- `valid_nameseg`. The characters are looked at until one of them is wrong. -/
def validNameseg (d : ℕ) : Outcome Bool := do
  let c0 ← mem d
  if ¬ isLeadNameChar c0 then pure false else do
    let c1 ← mem (d + 1)
    if ¬ isNameChar c1 then pure false else do
      let c2 ← mem (d + 2)
      if ¬ isNameChar c2 then pure false else do
        let c3 ← mem (d + 3)
        pure (decide (isNameChar c3))

/-- `dual_name_path_start` -/
def dualNamePathStart : UInt8 := 0x2e

/-- `multi_name_path_start` -/
def multiNamePathStart : UInt8 := 0x2f

/-- `is_name_string_start` -/
def isNameStringStart (c : UInt8) : Prop :=
  c = rootChar ∨ c = parentPrefixChar ∨ c = dualNamePathStart ∨ c = multiNamePathStart ∨
    isLeadNameChar c

instance (c : UInt8) : Decidable (isNameStringStart c) :=
  inferInstanceAs (Decidable (c = rootChar ∨ c = parentPrefixChar ∨ c = dualNamePathStart ∨
    c = multiNamePathStart ∨ isLeadNameChar c))

/-- `is_arg_or_local` -/
def isArgOrLocal (c : UInt8) : Prop := 0x60 ≤ c ∧ c ≤ 0x6e

instance (c : UInt8) : Decidable (isArgOrLocal c) :=
  inferInstanceAs (Decidable (0x60 ≤ c ∧ c ≤ 0x6e))

/-- The loop of `parse_name_string` over the parent prefixes. Every round but the last
consumes a byte, so that `data.size` rounds are enough. -/
def parseParentPrefixes : ℕ → ParseState → Outcome (ParseState × Name)
  | rounds, data => do
      let c ← data.peek mem
      if c = parentPrefixChar then
        match rounds with
        | 0 => abort
        | rounds + 1 => do
            let (c, data) ← data.consume mem
            let (data, name) ← parseParentPrefixes rounds data
            pure (data, c :: name)
      else
        pure (data, [])

/-- The loop of `parse_name_string` over the segments of a path -/
def parseNameSegs : ℕ → ParseState → Outcome (ParseState × Name)
  | 0, data => pure (data, [])
  | segCount + 1, data => do
      require ((← validNameseg mem data.begin_) = true)
      let seg ← mem.read data.begin_ 4
      let data ← data.skip 4
      let (data, name) ← parseNameSegs segCount data
      pure (data, seg ++ name)

/-- The part of `parse_name_string` behind the prefixes -/
def parseNamePath (data : ParseState) : Outcome (ParseState × Name) := do
  let (type, data) ← data.consume mem
  if type = 0 then
    pure (data, [])
  else if type = dualNamePathStart then do
    require ((← validNameseg mem data.begin_) = true)
    require ((← validNameseg mem (data.begin_ + 4)) = true)
    let segs ← mem.read data.begin_ 8
    let data ← data.skip 8
    pure (data, segs)
  else if type = multiNamePathStart then do
    let (segCount, data) ← data.consume mem
    require (segCount.toNat * 4 ≤ data.size)
    parseNameSegs mem segCount.toNat data
  else if isLeadNameChar type then do
    let (c1, data) ← data.consume mem
    let (c2, data) ← data.consume mem
    let (c3, data) ← data.consume mem
    require (isNameChar c1 ∧ isNameChar c2 ∧ isNameChar c3)
    pure (data, [type, c1, c2, c3])
  else
    abort

/-- `parse_name_string` -/
def parseNameString (data : ParseState) : Outcome (ParseState × Name) := do
  let c ← data.peek mem
  let (data, start) ← if c = rootChar then do
      let (c, data) ← data.consume mem
      pure (data, [c])
    else
      parseParentPrefixes mem data.size data
  let (data, path) ← parseNamePath mem data
  pure (data, start ++ path)

end Attos.Aml
