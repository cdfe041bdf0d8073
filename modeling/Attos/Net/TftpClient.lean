import Attos.Net.Tftp

/-!
# The TFTP clients

`tftp_base` of `attos/net/tftp.cpp`, which has a timer and dispatches packets,
and its two implementations, the reader and the writer of a file. A call gives
the new state and the packets it sends.
-/

namespace Attos.Net.Tftp

open Lib

/-- The virtual functions of `tftp_base`. -/
structure Operation (σ : Type) : Type where
  /-- `is_done` -/
  isDone : σ → Bool
  /-- `on_timeout` -/
  onTimeout : σ → Outcome (σ × List (List UInt8))
  /-- `on_packet`: no result if the packet was not handled -/
  onPacket : σ → Opcode → List UInt8 → Outcome (Option (σ × List (List UInt8)))

/-- `tftp_base` -/
structure Client (σ : Type) : Type where
  /-- the state of the implementation -/
  op : σ
  /-- ticks until the next timeout, or 0 -/
  timeout_ : ℕ

/-- `tftp_base::result` -/
inductive Result : Type where
  /-- nothing happened -/
  | running : Result
  /-- the timer ran out -/
  | timeout : Result
  /-- the transfer is complete -/
  | done : Result
  deriving DecidableEq

/-- `default_timeout` -/
def defaultTimeout : ℕ := 50

namespace Operation

variable {σ : Type} (o : Operation σ)

/-- The client after it sent packets: `send_packet` starts the timer. -/
def sent (timeout : ℕ) (op : σ) (packets : List (List UInt8)) : Client σ :=
  ⟨op, if packets = [] then timeout else defaultTimeout⟩

/-- `tick` -/
def tick (c : Client σ) : Outcome (Result × Client σ × List (List UInt8)) :=
  if o.isDone c.op then .done (.done, c, [])
  else if c.timeout_ = 1 then do
    let (op, packets) ← o.onTimeout c.op
    pure (.timeout, sent 0 op packets, packets)
  else
    .done (.running, { c with timeout_ := c.timeout_ - 1 }, [])

/-- `tftp_in`: a packet that is not handled is an error or has another opcode,
and both fail a check. -/
def tftpIn (c : Client σ) (data : List UInt8) : Outcome (Client σ × List (List UInt8)) := do
  Outcome.require (data.length ≤ 4 + blockSize)
  let (opcode, data) ← getOpcode data
  let handled ← o.onPacket c.op opcode data
  match handled with
  | some (op, packets) => pure (sent c.timeout_ op packets, packets)
  | none => .abort

/-- `tick` returns `done`. -/
def Finishes (c : Client σ) : Prop := ∃ c' packets, o.tick c = .done (.done, c', packets)

variable {o} {c c' : Client σ} {packets : List (List UInt8)}

/-- It does when the implementation is done, and changes nothing. -/
theorem tick_done (h : o.tick c = .done (.done, c', packets)) : c' = c ∧ o.isDone c.op = true := by
  by_cases hdone : o.isDone c.op = true
  · rw [tick, if_pos hdone] at h
    cases h
    exact ⟨rfl, hdone⟩
  · rw [tick, if_neg hdone] at h
    split_ifs at h
    · obtain ⟨⟨op, sent⟩, -, h⟩ := Outcome.bind_eq_done.mp h
      cases h
    · cases h

theorem finishes_iff : o.Finishes c ↔ o.isDone c.op = true := by
  constructor
  · rintro ⟨c', packets, h⟩
    exact (tick_done h).2
  · intro hdone
    exact ⟨c, [], if_pos hdone⟩

/-- A tick does nothing, or is a timeout. -/
theorem tick_eq_done {r : Result} (h : o.tick c = .done (r, c', packets)) :
    c'.op = c.op ∧ packets = [] ∨ o.onTimeout c.op = .done (c'.op, packets) := by
  rw [tick] at h
  split_ifs at h with hdone htimeout
  · cases h
    exact .inl ⟨rfl, rfl⟩
  · obtain ⟨⟨op, out⟩, hop, h⟩ := Outcome.bind_eq_done.mp h
    cases h
    exact .inr hop
  · cases h
    exact .inl ⟨rfl, rfl⟩

/-- A packet is handled. -/
theorem tftpIn_eq_done {p : List UInt8} (h : o.tftpIn c p = .done (c', packets)) :
    ∃ opcode data, getOpcode p = .done (opcode, data) ∧
      o.onPacket c.op opcode data = .done (some (c'.op, packets)) := by
  rw [tftpIn] at h
  obtain ⟨-, h⟩ := Outcome.require_bind_eq_done.mp h
  obtain ⟨⟨opcode, data⟩, hop, h⟩ := Outcome.bind_eq_done.mp h
  obtain ⟨handled, hhandled, h⟩ := Outcome.bind_eq_done.mp h
  cases handled with
  | none => cases h
  | some result =>
    cases h
    exact ⟨opcode, data, hop, hhandled⟩

end Operation

namespace Operation

variable {σ : Type} {o : Operation σ} {c : Client σ}

/-- A packet is handled, or makes the client abort. -/
theorem tftpIn_returns {p data : List UInt8} {opcode : Opcode} (hlength : p.length ≤ 4 + blockSize)
    (hop : getOpcode p = .done (opcode, data)) :
    (o.tftpIn c p).Returns ↔ ∃ r, o.onPacket c.op opcode data = .done (some r) := by
  rw [tftpIn, Outcome.require_pos hlength, Outcome.done_bind, hop, Outcome.done_bind,
    Outcome.bind_returns]
  constructor
  · rintro ⟨handled, hhandled, hreturns⟩
    cases handled with
    | none => exact absurd hreturns Outcome.abort_not_returns
    | some r => exact ⟨r, hhandled⟩
  · rintro ⟨r, hr⟩
    exact ⟨some r, hr, Outcome.done_returns _⟩

/-- A packet that the implementation does not handle makes the client abort. -/
theorem tftpIn_not_returns {p data : List UInt8} {opcode : Opcode}
    (hop : getOpcode p = .done (opcode, data))
    (hnot : o.onPacket c.op opcode data = .done none) : ¬ (o.tftpIn c p).Returns := by
  rintro ⟨⟨c', packets⟩, h⟩
  obtain ⟨opcode', data', hop', hhandled⟩ := tftpIn_eq_done h
  rw [hop] at hop'
  cases hop'
  rw [hnot] at hhandled
  cases hhandled

/-- A tick returns, unless it is a timeout that aborts. -/
theorem tick_returns : (o.tick c).Returns ↔
    (o.isDone c.op = false → c.timeout_ = 1 → (o.onTimeout c.op).Returns) := by
  rw [tick]
  cases hdone : o.isDone c.op with
  | true => simp
  | false =>
    by_cases htimeout : c.timeout_ = 1
    · rw [if_neg (by simp), if_pos htimeout, Outcome.bind_returns]
      simp [htimeout, Outcome.Returns]
    · rw [if_neg (by simp), if_neg htimeout]
      simp [htimeout]

end Operation

/-! ## Reading a file -/

/-- `tftp_reader` -/
structure Reader : Type where
  /-- name of the file -/
  filename_ : CString
  /-- the last block received, or 0 -/
  lastBlock_ : ℕ
  /-- the blocks received -/
  data_ : List UInt8
  /-- whether the last block was received -/
  done_ : Bool

namespace Reader

/-- `send_rrq` -/
def sendRrq (filename : CString) : Reader × List (List UInt8) :=
  (⟨filename, 0, [], false⟩, [putRequest .rrq filename])

/-- The constructor. -/
def construct (filename : CString) : Outcome (Client Reader × List (List UInt8)) := do
  Outcome.require (filename.chars.length < 64)
  let (r, packets) := sendRrq filename
  pure (⟨r, defaultTimeout⟩, packets)

/-- `on_timeout` -/
def onTimeout (r : Reader) : Outcome (Reader × List (List UInt8)) :=
  if r.lastBlock_ = 0 then .done (sendRrq r.filename_)
  else .abort

/-- `on_packet` -/
def onPacket (r : Reader) (opcode : Opcode) (data : List UInt8) :
    Outcome (Option (Reader × List (List UInt8))) :=
  if opcode ≠ .data then .done none
  else do
    let (blockNumber, data) ← getU16 data
    -- the difference is a signed number
    Outcome.require ((blockNumber : ℤ) - 1 = r.lastBlock_)
    pure (some (⟨r.filename_, blockNumber, r.data_ ++ data, r.done_ ∨ data.length ≠ blockSize⟩,
      [putAck blockNumber]))

/-- A block that is handled is the next one. -/
theorem onPacket_eq_done {r r' : Reader} {opcode : Opcode} {data : List UInt8}
    {packets : List (List UInt8)} (h : r.onPacket opcode data = .done (some (r', packets))) :
    opcode = .data ∧ ∃ payload, getU16 data = .done (r.lastBlock_ + 1, payload) ∧
      r' = ⟨r.filename_, r.lastBlock_ + 1, r.data_ ++ payload,
        r.done_ ∨ payload.length ≠ blockSize⟩ ∧ packets = [putAck (r.lastBlock_ + 1)] := by
  rw [onPacket] at h
  by_cases hop : opcode = .data
  · rw [if_neg (not_not.mpr hop)] at h
    obtain ⟨⟨k, payload⟩, hk, h⟩ := Outcome.bind_eq_done.mp h
    obtain ⟨hnext, h⟩ := Outcome.require_bind_eq_done.mp h
    cases h
    obtain rfl : k = r.lastBlock_ + 1 := by omega
    exact ⟨hop, payload, hk, rfl, rfl⟩
  · rw [if_pos hop] at h
    cases h

/-- `tftp_reader` as an implementation of `tftp_base`. -/
def operation : Operation Reader where
  isDone r := r.done_
  onTimeout := onTimeout
  onPacket := onPacket

end Reader

/-! ## Writing a file -/

/-- `tftp_writer` -/
structure Writer : Type where
  /-- name of the file -/
  filename_ : CString
  /-- the file -/
  data_ : List UInt8
  /-- the last block acknowledged, or `no_acks` -/
  lastAck_ : ℕ

namespace Writer

/-- `no_acks` -/
def noAcks : ℕ := 65535

variable (w : Writer)

/-- `block_count` -/
def blockCount : ℕ := Tftp.blockCount w.data_.length

/-- `send_wrq` -/
def sendWrq : Writer × List (List UInt8) :=
  ({ w with lastAck_ := noAcks }, [putRequest .wrq w.filename_])

/-- The constructor. -/
def construct (filename : CString) (data : List UInt8) :
    Outcome (Client Writer × List (List UInt8)) := do
  Outcome.require (filename.chars.length < 64)
  Outcome.require (LegalSize data.length)
  let (w, packets) := sendWrq ⟨filename, data, noAcks⟩
  pure (⟨w, defaultTimeout⟩, packets)

/-- `send_data` -/
def sendData (blockNumber : ℕ) : Outcome (List (List UInt8)) := do
  Outcome.require (1 ≤ blockNumber ∧ blockNumber ≤ w.blockCount)
  let index := (blockNumber - 1) * blockSize
  let size := min blockSize (sub64 w.data_.length index)
  pure [putData blockNumber ((w.data_.drop index).take size)]

/-- A block of the file is sent. -/
theorem sendData_eq_done {w : Writer} {blockNumber : ℕ} {packets : List (List UInt8)}
    (hw : LegalSize w.data_.length) (h : w.sendData blockNumber = .done packets) :
    1 ≤ blockNumber ∧ blockNumber ≤ w.data_.length / 512 + 1 ∧
      packets = [putData blockNumber (block w.data_ blockNumber)] := by
  rw [sendData] at h
  obtain ⟨⟨hlo, hhi⟩, h⟩ := Outcome.require_bind_eq_done.mp h
  rw [Writer.blockCount, blockCount_eq hw] at hhi
  rw [LegalSize, blockSize] at hw
  have hsub : sub64 w.data_.length ((blockNumber - 1) * blockSize) =
      w.data_.length - (blockNumber - 1) * blockSize :=
    sub64_of_le (by unfold blockSize; omega) (by omega)
  refine ⟨hlo, hhi, ?_⟩
  simp only [hsub, Outcome.pure_eq, Outcome.done.injEq] at h
  rw [← h, block, Nat.mul_comm blockSize, ← List.length_drop, ← List.take_eq_take_min]

/-- `is_done` -/
def isDone : Bool := w.lastAck_ = w.blockCount

/-- `on_timeout` -/
def onTimeout : Outcome (Writer × List (List UInt8)) :=
  if w.lastAck_ = noAcks then .done w.sendWrq
  else if w.lastAck_ < w.blockCount then do
    let packets ← w.sendData (w.lastAck_ + 1)
    pure (w, packets)
  else .abort

/-- `on_packet` -/
def onPacket (opcode : Opcode) (data : List UInt8) :
    Outcome (Option (Writer × List (List UInt8))) :=
  if opcode ≠ .ack then .done none
  else do
    let (blockNumber, _) ← getU16 data
    Outcome.require (blockNumber ≤ w.blockCount)
    let w := { w with lastAck_ := blockNumber }
    if blockNumber < w.blockCount then do
      let packets ← w.sendData (w.lastAck_ + 1)
      pure (some (w, packets))
    else
      pure (some (w, []))

/-- A timeout sends the request or a block again. -/
theorem onTimeout_eq_done {w w' : Writer} {packets : List (List UInt8)}
    (hw : LegalSize w.data_.length) (h : w.onTimeout = .done (w', packets)) :
    w' = w ∧ ∀ p ∈ packets, p = putRequest .wrq w.filename_ ∨
      ∃ k, 1 ≤ k ∧ k ≤ w.data_.length / 512 + 1 ∧ p = putData k (block w.data_ k) := by
  rw [onTimeout] at h
  split_ifs at h with hno hlt
  · cases h
    refine ⟨?_, fun p hp => .inl (by simpa using hp)⟩
    rw [← hno]
  · obtain ⟨out, hout, h⟩ := Outcome.bind_eq_done.mp h
    cases h
    obtain ⟨hlo, hhi, rfl⟩ := sendData_eq_done hw hout
    exact ⟨rfl, fun p hp => .inr ⟨_, hlo, hhi, by simpa using hp⟩⟩

/-- An acknowledgment that is handled is recorded, and answered with a block. -/
theorem onPacket_eq_done {w w' : Writer} {opcode : Opcode} {data : List UInt8}
    {packets : List (List UInt8)} (hw : LegalSize w.data_.length)
    (h : w.onPacket opcode data = .done (some (w', packets))) :
    opcode = .ack ∧ ∃ k rest, getU16 data = .done (k, rest) ∧ k ≤ w.blockCount ∧
      w' = { w with lastAck_ := k } ∧ ∀ p ∈ packets,
        ∃ k, 1 ≤ k ∧ k ≤ w.data_.length / 512 + 1 ∧ p = putData k (block w.data_ k) := by
  rw [onPacket] at h
  by_cases hop : opcode = .ack
  · rw [if_neg (not_not.mpr hop)] at h
    obtain ⟨⟨k, rest⟩, hk, h⟩ := Outcome.bind_eq_done.mp h
    obtain ⟨hle, h⟩ := Outcome.require_bind_eq_done.mp h
    refine ⟨hop, k, rest, hk, hle, ?_⟩
    dsimp only at h
    split_ifs at h with hlt
    · obtain ⟨out, hout, h⟩ := Outcome.bind_eq_done.mp h
      cases h
      obtain ⟨hlo, hhi, rfl⟩ := sendData_eq_done (by exact hw) hout
      exact ⟨rfl, fun p hp => ⟨_, hlo, hhi, by simpa using hp⟩⟩
    · cases h
      exact ⟨rfl, fun p hp => absurd hp List.not_mem_nil⟩
  · rw [if_pos hop] at h
    cases h

/-- `tftp_writer` as an implementation of `tftp_base`. -/
def operation : Operation Writer where
  isDone := isDone
  onTimeout := onTimeout
  onPacket := onPacket

end Writer

end Attos.Net.Tftp
