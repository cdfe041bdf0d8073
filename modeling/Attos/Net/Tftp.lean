import Attos.Lib.Bytes
import Attos.Lib.Outcome
import Attos.Lib.Word

/-!
# TFTP packets

The packet format of `attos/net/tftp.h` and `tftp.cpp`: numbers of two bytes
and strings with a terminator, written one after the other and read back from
the front. A file is sent in blocks of 512 bytes, of which the last one is
shorter, and maybe empty.
-/

namespace Attos.Net.Tftp

open Lib

/-! ## Files and blocks -/

/-- `tftp::block_size` -/
def blockSize : ℕ := 512

/-- `tftp::legal_size` -/
def LegalSize (size : ℕ) : Prop := size ≤ blockSize * (65535 - 1)

instance (size : ℕ) : Decidable (LegalSize size) := inferInstanceAs (Decidable (_ ≤ _))

/-- `tftp::block_count` -/
def blockCount (size : ℕ) : ℕ := u16 ((size + 512) / blockSize)

/-- The bytes of block `k`, counted from 1. -/
def block (file : List UInt8) (k : ℕ) : List UInt8 := (file.drop (blockSize * (k - 1))).take blockSize

/-- The blocks of a file with a legal size are counted without a wrap. -/
theorem blockCount_eq {size : ℕ} (h : LegalSize size) : blockCount size = size / 512 + 1 := by
  rw [LegalSize, blockSize] at h
  rw [blockCount, blockSize, u16]
  omega

/-- A block behind the first ones continues the file. -/
theorem take_append_block (file : List UInt8) (k : ℕ) :
    file.take (blockSize * k) ++ block file (k + 1) = file.take (blockSize * (k + 1)) := by
  rw [block, Nat.add_sub_cancel, ← List.take_add]
  rfl

/-- The first blocks are the start of the file. -/
theorem flatMap_block (file : List UInt8) (k : ℕ) :
    (List.range' 1 k).flatMap (block file) = file.take (blockSize * k) := by
  induction k with
  | zero => simp
  | succ k ih =>
    rw [List.range'_concat, List.flatMap_append, ih, ← take_append_block]
    simp [Nat.add_comm]

theorem length_block (file : List UInt8) (k : ℕ) :
    (block file k).length = min 512 (file.length - 512 * (k - 1)) := by
  simp [block, blockSize]

/-- The last block is the only short one. -/
theorem length_block_lt_iff {file : List UInt8} {k : ℕ} (hk : 1 ≤ k) (hk' : k ≤ file.length / 512 + 1) :
    (block file k).length < 512 ↔ k = file.length / 512 + 1 := by
  rw [length_block]
  omega

/-- Nothing is behind the last block. -/
theorem take_last (file : List UInt8) : file.take (blockSize * (file.length / 512 + 1)) = file := by
  apply List.take_of_length_le
  rw [blockSize]
  omega

/-! ## Packets -/

/-- `tftp::opcode`, and the values that no enumerator has. -/
inductive Opcode : Type where
  /-- read request -/
  | rrq : Opcode
  /-- write request -/
  | wrq : Opcode
  /-- data -/
  | data : Opcode
  /-- acknowledgment -/
  | ack : Opcode
  /-- error -/
  | error : Opcode
  /-- another value -/
  | other : ℕ → Opcode
  deriving DecidableEq

/-- The value of an opcode. -/
def Opcode.toNat : Opcode → ℕ
  | rrq => 1
  | wrq => 2
  | data => 3
  | ack => 4
  | error => 5
  | other n => n

/-- `static_cast<opcode>(n)` -/
def Opcode.ofNat : ℕ → Opcode
  | 1 => rrq
  | 2 => wrq
  | 3 => data
  | 4 => ack
  | 5 => error
  | n => other n

namespace ErrorCode

/-- `tftp::error_code::file_not_found` -/
def fileNotFound : ℕ := 1

/-- `tftp::error_code::access_violation` -/
def accessViolation : ℕ := 2

/-- `tftp::error_code::illegal_operation` -/
def illegalOperation : ℕ := 4

end ErrorCode

/-- A string: bytes before a terminator. -/
structure CString : Type where
  /-- the bytes -/
  chars : List UInt8
  /-- none of them is the terminator -/
  nonzero : 0 ∉ chars

/-- The bytes of a string literal. -/
def ascii (s : String) : List UInt8 := s.toList.map fun c => UInt8.ofNat c.toNat

/-- `put` of an opcode. -/
def putOpcode (op : Opcode) : List UInt8 := put16 op.toNat

/-- `put` of a string. -/
def putString (s : List UInt8) : List UInt8 := s ++ [0]

/-- `put_error_reply` -/
def putErrorReply (ec : ℕ) (msg : String) : List UInt8 :=
  putOpcode .error ++ put16 ec ++ putString (ascii msg)

/-- `put_ack` -/
def putAck (blockNumber : ℕ) : List UInt8 := putOpcode .ack ++ put16 blockNumber

/-- A packet with a block. -/
def putData (blockNumber : ℕ) (data : List UInt8) : List UInt8 :=
  putOpcode .data ++ put16 blockNumber ++ data

/-- A read or write request for a file in the mode `octet`. -/
def putRequest (op : Opcode) (filename : CString) : List UInt8 :=
  putOpcode op ++ putString filename.chars ++ putString (ascii "octet")

/-- `get_u16`: the number and the data behind it. -/
def getU16 (data : List UInt8) : Outcome (ℕ × List UInt8) := do
  Outcome.require (2 ≤ data.length)
  pure (be16 (view data) 0, data.drop 2)

/-- `get_opcode` -/
def getOpcode (data : List UInt8) : Outcome (Opcode × List UInt8) := do
  let (x, data) ← getU16 data
  pure (.ofNat x, data)

/-- `get_string`: the bytes before the first zero, and the data behind it. -/
def getString : List UInt8 → Outcome (List UInt8 × List UInt8)
  | [] => .abort
  | c :: data =>
    if c = 0 then .done ([], data)
    else do
      let (s, rest) ← getString data
      pure (c :: s, rest)

/-! ## Reading what was written -/

/-- A number is read back. -/
theorem getU16_put16 {n : ℕ} (hn : n < 2 ^ 16) (data : List UInt8) :
    getU16 (put16 n ++ data) = .done (n, data) := by
  rw [getU16, Outcome.require_pos (by simp), Outcome.done_bind, be16_put16 n hn]
  rfl

/-- An opcode is read back. -/
theorem getOpcode_putOpcode {op : Opcode} (hop : ∀ n, op ≠ .other n) (data : List UInt8) :
    getOpcode (putOpcode op ++ data) = .done (op, data) := by
  have hlt : op.toNat < 2 ^ 16 := by
    cases op with
    | other n => exact absurd rfl (hop n)
    | _ => decide
  have hofNat : Opcode.ofNat op.toNat = op := by
    cases op with
    | other n => exact absurd rfl (hop n)
    | _ => rfl
  rw [getOpcode, putOpcode, getU16_put16 hlt]
  simp only [Outcome.done_bind, Outcome.pure_eq, hofNat]

/-- So is the opcode of a request. -/
theorem getOpcode_putRequest {op : Opcode} (hop : ∀ n, op ≠ .other n) (filename : CString) :
    getOpcode (putRequest op filename) =
      .done (op, putString filename.chars ++ putString (ascii "octet")) := by
  rw [putRequest, List.append_assoc, getOpcode_putOpcode hop]

/-- A string is read back. -/
theorem getString_putString {s : List UInt8} (hs : 0 ∉ s) (data : List UInt8) :
    getString (putString s ++ data) = .done (s, data) := by
  induction s with
  | nil => rfl
  | cons c s ih =>
    rw [List.mem_cons, not_or] at hs
    rw [putString, List.cons_append, List.cons_append, getString, if_neg (Ne.symm hs.1)]
    rw [putString] at ih
    rw [ih hs.2]
    rfl

/-- A string that is read was there, before its terminator. -/
theorem getString_eq_done {data s rest : List UInt8} (h : getString data = .done (s, rest)) :
    data = putString s ++ rest ∧ 0 ∉ s := by
  induction data generalizing s with
  | nil => cases h
  | cons c data ih =>
    rw [getString] at h
    by_cases hc : c = 0
    · rw [if_pos hc] at h
      obtain ⟨rfl, rfl⟩ := Prod.mk.inj (Outcome.done.inj h)
      exact ⟨by rw [hc]; rfl, List.not_mem_nil⟩
    · rw [if_neg hc] at h
      obtain ⟨⟨s₁, rest₁⟩, hrest, h⟩ := Outcome.bind_eq_done.mp h
      obtain ⟨rfl, rfl⟩ := Prod.mk.inj (Outcome.done.inj h)
      obtain ⟨rfl, hnot⟩ := ih hrest
      refine ⟨rfl, ?_⟩
      rw [List.mem_cons, not_or]
      exact ⟨Ne.symm hc, hnot⟩

/-- The packet acknowledges block `k`. -/
def IsAck (p : List UInt8) (k : ℕ) : Prop :=
  ∃ rest rest', getOpcode p = .done (.ack, rest) ∧ getU16 rest = .done (k, rest')

/-- The packet has block `k`, which is `data`. -/
def IsData (p : List UInt8) (k : ℕ) (data : List UInt8) : Prop :=
  ∃ rest, getOpcode p = .done (.data, rest) ∧ getU16 rest = .done (k, data)

/-- An acknowledgment has one number. -/
theorem isAck_putAck {n k : ℕ} {rest : List UInt8} (hn : n < 2 ^ 16)
    (h : IsAck (putAck n ++ rest) k) : k = n := by
  obtain ⟨data, data', hop, hk⟩ := h
  rw [putAck, List.append_assoc, getOpcode_putOpcode (by simp)] at hop
  cases hop
  rw [getU16_put16 hn] at hk
  cases hk
  rfl

/-- It has that number. -/
theorem isAck_putAck_self {k : ℕ} (hk : k < 2 ^ 16) (rest : List UInt8) :
    IsAck (putAck k ++ rest) k := by
  refine ⟨put16 k ++ rest, rest, ?_, getU16_put16 hk rest⟩
  rw [putAck, List.append_assoc, getOpcode_putOpcode (by simp)]

/-- A data packet has its block. -/
theorem isData_putData_self {k : ℕ} (hk : k < 2 ^ 16) (data : List UInt8) :
    IsData (putData k data) k data := by
  refine ⟨put16 k ++ data, ?_, getU16_put16 hk data⟩
  rw [putData, List.append_assoc, getOpcode_putOpcode (by simp)]

/-- A data packet has one block. -/
theorem isData_putData {n k : ℕ} {data data' : List UInt8} (hn : n < 2 ^ 16)
    (h : IsData (putData n data) k data') : k = n ∧ data' = data := by
  obtain ⟨rest, hop, hk⟩ := h
  rw [putData, List.append_assoc, getOpcode_putOpcode (by simp)] at hop
  cases hop
  rw [getU16_put16 hn] at hk
  cases hk
  exact ⟨rfl, rfl⟩

/-- An error reply is neither. -/
theorem getOpcode_putErrorReply (ec : ℕ) (msg : String) :
    ∃ rest, getOpcode (putErrorReply ec msg) = .done (.error, rest) := by
  rw [putErrorReply, List.append_assoc, getOpcode_putOpcode (by simp)]
  exact ⟨_, rfl⟩

end Attos.Net.Tftp
