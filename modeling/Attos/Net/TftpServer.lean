import Attos.Net.Headers
import Attos.Net.Tftp
import Mathlib.Data.List.Basic

/-!
# The TFTP server

The server of `exp/tftp/tftps.cpp`: a loop that receives a packet, finds the
session of its sender, and answers. The file system is a function from names to
contents.

A session with a file being written is erased when its last block came. The
model keeps the erased session in a list of its own, and keeps with a session
the numbers of the blocks it took, so that one can say what the server has
received; nothing in the server looks at either.
-/

namespace Attos.Net.Tftp

open Lib

/-- `tftp_server_session` -/
structure Session : Type where
  /-- address of the client -/
  remoteAddr_ : Ipv4Address
  /-- port of the client -/
  remotePort_ : ℕ
  /-- name of the file, without a terminator -/
  filename_ : List UInt8
  /-- whether the client reads -/
  isRead_ : Bool
  /-- the file -/
  data_ : List UInt8
  /-- the numbers of the blocks received -/
  received : List ℕ

namespace Session

/-- The session of a client, as `find_if` looks for it. -/
def IsFrom (x : Session) (remoteAddr : Ipv4Address) (remotePort : ℕ) : Prop :=
  x.remoteAddr_ = remoteAddr ∧ x.remotePort_ = remotePort

instance (remoteAddr : Ipv4Address) (remotePort : ℕ) :
    DecidablePred fun x : Session => x.IsFrom remoteAddr remotePort :=
  fun _ => inferInstanceAs (Decidable (_ ∧ _))

/-- `block_count()` -/
def blockCount (x : Session) : ℕ := Tftp.blockCount x.data_.length

/-- `put_block` -/
def putBlock (x : Session) (block : ℕ) : Outcome (List UInt8) := do
  Outcome.require x.isRead_
  Outcome.require (1 ≤ block ∧ block ≤ x.blockCount)
  let offset := (block - 1) * blockSize
  let count := min blockSize (u32 (sub64 x.data_.length offset))
  pure (putData block ((x.data_.drop offset).take count))

/-- `got_data` -/
def gotData (x : Session) (block : ℕ) (data : List UInt8) (size : ℕ) : Outcome (ℕ × Session) := do
  Outcome.require (¬ x.isRead_)
  Outcome.require (0 < block)
  Outcome.require (size ≤ blockSize)
  let expectedBlockNumber := u16 (1 + x.data_.length / blockSize)
  Outcome.require (block = expectedBlockNumber)
  pure (expectedBlockNumber, { x with
    data_ := x.data_ ++ data.take size
    received := x.received ++ [block] })

end Session

/-- The server process. -/
structure Server : Type where
  /-- the sessions -/
  sessions_ : List Session
  /-- the files -/
  files : List UInt8 → Option (List UInt8)
  /-- whether the loop has ended -/
  done : Bool
  /-- the sessions that were erased with their last block -/
  finished : List Session

/-- What the server finds outside of its own data when a file is complete. -/
structure Host : Type where
  /-- what is behind the end of `filename_` in memory, up to the next zero byte -/
  tail : List UInt8
  /-- whether the file can be opened for writing -/
  opens : Bool

/-- `valid_filename` -/
def validFilename (filename : List UInt8) : Bool :=
  filename.zipIdx.all fun (c, pos) =>
    (65 ≤ c ∧ c ≤ 90) ∨ (97 ≤ c ∧ c ≤ 122) ∨ (48 ≤ c ∧ c ≤ 57) ∨ (pos ≠ 0 ∧ c = 46)

namespace Server

variable (s : Server)

/-- The session of a client. -/
def find (remoteAddr : Ipv4Address) (remotePort : ℕ) : Option Session :=
  s.sessions_.find? fun x => x.IsFrom remoteAddr remotePort

/-- Erase the session of a client. -/
def erase (remoteAddr : Ipv4Address) (remotePort : ℕ) : Server :=
  { s with sessions_ := s.sessions_.eraseP fun x => x.IsFrom remoteAddr remotePort }

/-- Change the session of a client. -/
def update (remoteAddr : Ipv4Address) (remotePort : ℕ) (y : Session) : Server :=
  { s with sessions_ := s.sessions_.replaceF fun x =>
      if x.IsFrom remoteAddr remotePort then some y else none }

/-- Start a session. -/
def push (x : Session) : Server := { s with sessions_ := s.sessions_ ++ [x] }

/-- `file_exists` -/
def FileExists (filename : List UInt8) : Prop := (s.files filename).isSome

instance (filename : List UInt8) : Decidable (s.FileExists filename) :=
  inferInstanceAs (Decidable (_ = true))

/-- Write a file. -/
def writeFile (filename data : List UInt8) : Server :=
  { s with files := Function.update s.files filename (some data) }

/-- A read or write request: close the previous session, check the mode and the
name, and start a new session. -/
def request (isRead : Bool) (remoteAddr : Ipv4Address) (remotePort : ℕ) (data : List UInt8) :
    Outcome (Server × List UInt8) := do
  let (filename, data) ← getString data
  let (mode, _) ← getString data
  let s := s.erase remoteAddr remotePort
  if mode ≠ ascii "octet" then
    pure (s, putErrorReply ErrorCode.illegalOperation "Unsupported RRQ mode")
  else if ¬ validFilename filename then
    pure (s, putErrorReply ErrorCode.fileNotFound "Invalid filename")
  else if isRead then
    match s.files filename with
    | none => pure (s, putErrorReply ErrorCode.fileNotFound "File not found")
    | some file => do
      Outcome.require (LegalSize file.length)
      let session := ⟨remoteAddr, remotePort, filename, true, file, []⟩
      let b ← session.putBlock 1
      pure (s.push session, b)
  else if s.FileExists filename then
    pure (s, putErrorReply ErrorCode.accessViolation "File exists")
  else
    pure (s.push ⟨remoteAddr, remotePort, filename, false, [], []⟩, putAck 0)

/-- An acknowledgment: send the next block, or close the session after the last
one. -/
def ackIn (remoteAddr : Ipv4Address) (remotePort : ℕ) (data : List UInt8) :
    Outcome (Server × List UInt8) := do
  let (blockNumber, _) ← getU16 data
  let session ← Outcome.requireSome (s.find remoteAddr remotePort)
  Outcome.require (1 ≤ blockNumber ∧ blockNumber ≤ session.blockCount)
  if blockNumber = session.blockCount then
    pure (s.erase remoteAddr remotePort, [])
  else do
    let b ← session.putBlock (blockNumber + 1)
    pure (s, b)

/-- The file of a session is complete: write it, unless it exists. The name is
read up to the next zero byte, which is behind the end of `filename_`. The vector
of an empty name is a null pointer, from which no name can be read. -/
def storeFile (host : Host) (session : Session) : Outcome (Server × List UInt8) := do
  Outcome.require (session.filename_ ≠ [])
  let name := session.filename_ ++ host.tail
  if s.FileExists name then
    pure (s, putErrorReply ErrorCode.accessViolation "File exists")
  else do
    Outcome.require host.opens
    pure (s.writeFile name session.data_, [])

/-- A block: add it to the session and acknowledge it; after the last one write
the file and close the session. -/
def dataIn (host : Host) (remoteAddr : Ipv4Address) (remotePort : ℕ) (data : List UInt8) :
    Outcome (Server × List UInt8) := do
  let (blockNumber, data) ← getU16 data
  let session ← Outcome.requireSome (s.find remoteAddr remotePort)
  let (expected, session) ← session.gotData blockNumber data (u16 data.length)
  let b := putAck expected
  if data.length < blockSize then do
    let (s, error) ← s.storeFile host session
    let s := s.erase remoteAddr remotePort
    pure ({ s with finished := session :: s.finished }, b ++ error)
  else
    pure (s.update remoteAddr remotePort session, b)

/-- The body of the loop of `main`, for a packet of at most 1024 bytes: the
server after it and the answer, which is not sent if it is empty. -/
def packetIn (host : Host) (remoteAddr : Ipv4Address) (remotePort : ℕ) (buf : List UInt8) :
    Outcome (Server × List UInt8) := do
  Outcome.require (remoteAddr ≠ inaddrBroadcast)
  let (opcode, data) ← getOpcode buf
  match opcode with
  | .rrq => s.request true remoteAddr remotePort data
  | .wrq => s.request false remoteAddr remotePort data
  | .ack => s.ackIn remoteAddr remotePort data
  | .data => s.dataIn host remoteAddr remotePort data
  | _ => pure ({ s with done := true },
      putErrorReply ErrorCode.illegalOperation "Unsupported TFTP opcode")

/-- The server receives a packet of a client: what is sent is the answer. -/
def Receives (remoteAddr : Ipv4Address) (remotePort : ℕ) (buf : List UInt8) (s' : Server)
    (out : List (List UInt8)) : Prop :=
  s.done = false ∧ ∃ host answer, s.packetIn host remoteAddr remotePort buf = .done (s', answer) ∧
    out = if answer = [] then [] else [answer]

/-- The server receives a packet of another client. -/
def ReceivesOther (remoteAddr : Ipv4Address) (remotePort : ℕ) (s' : Server) : Prop :=
  s.done = false ∧ ∃ host remoteAddr' remotePort' buf answer,
    ¬ (remoteAddr' = remoteAddr ∧ remotePort' = remotePort) ∧ buf.length ≤ 1024 ∧
      s.packetIn host remoteAddr' remotePort' buf = .done (s', answer)

end Server

/-! ## What the operations do -/

section Effects

variable {s s' : Server} {x y : Session} {remoteAddr : Ipv4Address} {remotePort : ℕ}
  {host : Host} {data out buf : List UInt8} {isRead : Bool}

/-- A block of a file is sent. -/
theorem Session.putBlock_eq_done {block : ℕ} (hx : LegalSize x.data_.length)
    (h : x.putBlock block = .done out) :
    x.isRead_ = true ∧ 1 ≤ block ∧ block ≤ x.data_.length / 512 + 1 ∧
      out = putData block (Tftp.block x.data_ block) := by
  rw [putBlock] at h
  obtain ⟨hread, h⟩ := Outcome.require_bind_eq_done.mp h
  obtain ⟨⟨hlo, hhi⟩, h⟩ := Outcome.require_bind_eq_done.mp h
  rw [Session.blockCount, blockCount_eq hx] at hhi
  rw [LegalSize, blockSize] at hx
  have hsub : sub64 x.data_.length ((block - 1) * blockSize) =
      x.data_.length - (block - 1) * blockSize :=
    sub64_of_le (by unfold blockSize; omega) (by omega)
  have hu32 : u32 (x.data_.length - (block - 1) * blockSize) =
      x.data_.length - (block - 1) * blockSize := Nat.mod_eq_of_lt (by omega)
  refine ⟨hread, hlo, hhi, ?_⟩
  simp only [hsub, hu32, Outcome.pure_eq, Outcome.done.injEq] at h
  rw [← h, Tftp.block, Nat.mul_comm blockSize, ← List.length_drop, ← List.take_eq_take_min]

/-- A block is received. -/
theorem Session.gotData_eq_done {block size expected : ℕ}
    (h : x.gotData block data size = .done (expected, y)) :
    x.isRead_ = false ∧ block = u16 (1 + x.data_.length / 512) ∧ expected = block ∧ size ≤ 512 ∧
      y = { x with data_ := x.data_ ++ data.take size, received := x.received ++ [block] } := by
  rw [gotData] at h
  obtain ⟨hread, h⟩ := Outcome.require_bind_eq_done.mp h
  obtain ⟨-, h⟩ := Outcome.require_bind_eq_done.mp h
  obtain ⟨hsize, h⟩ := Outcome.require_bind_eq_done.mp h
  obtain ⟨hblock, h⟩ := Outcome.require_bind_eq_done.mp h
  simp only [Outcome.pure_eq, Outcome.done.injEq, Prod.mk.injEq] at h
  exact ⟨by simpa using hread, hblock, h.1.symm.trans hblock.symm, hsize, h.2.symm⟩

/-- It is for the same file. -/
theorem Session.gotData_filename {block size expected : ℕ}
    (h : x.gotData block data size = .done (expected, y)) : y.filename_ = x.filename_ := by
  obtain ⟨-, -, -, -, rfl⟩ := gotData_eq_done h
  rfl

namespace Server

theorem mem_erase (h : x ∈ (s.erase remoteAddr remotePort).sessions_) : x ∈ s.sessions_ :=
  List.mem_of_mem_eraseP h

theorem mem_push : x ∈ (s.push y).sessions_ ↔ x ∈ s.sessions_ ∨ x = y := by
  simp [push]

theorem mem_update (h : x ∈ (s.update remoteAddr remotePort y).sessions_) :
    x ∈ s.sessions_ ∨ x = y := by
  simp only [update] at h
  generalize s.sessions_ = l at h ⊢
  induction l with
  | nil => simp at h
  | cons z l ih =>
    rw [List.replaceF_cons] at h
    by_cases hz : z.IsFrom remoteAddr remotePort
    · simp only [hz, if_true, List.mem_cons] at h ⊢
      tauto
    · simp only [hz, if_false, List.mem_cons] at h ⊢
      tauto

theorem find_eq_some (h : s.find remoteAddr remotePort = some x) :
    x ∈ s.sessions_ ∧ x.IsFrom remoteAddr remotePort := by
  rw [find] at h
  have hfrom := List.find?_some h
  exact ⟨List.mem_of_find?_eq_some h, by simpa using hfrom⟩

/-- A request is answered with an error, or starts a session. -/
theorem request_eq_done (h : s.request isRead remoteAddr remotePort data = .done (s', out)) :
    ∃ filename rest, getString data = .done (filename, rest) ∧
      (s' = s.erase remoteAddr remotePort ∧ (∃ ec msg, out = putErrorReply ec msg) ∨
        (isRead = true ∧ ∃ file, s.files filename = some file ∧ LegalSize file.length ∧
          s' = (s.erase remoteAddr remotePort).push
            ⟨remoteAddr, remotePort, filename, true, file, []⟩ ∧
          Session.putBlock ⟨remoteAddr, remotePort, filename, true, file, []⟩ 1 = .done out) ∨
        isRead = false ∧ out = putAck 0 ∧
          s' = (s.erase remoteAddr remotePort).push
            ⟨remoteAddr, remotePort, filename, false, [], []⟩) := by
  rw [request] at h
  obtain ⟨⟨filename, rest⟩, hname, h⟩ := Outcome.bind_eq_done.mp h
  obtain ⟨⟨mode, rest'⟩, -, h⟩ := Outcome.bind_eq_done.mp h
  refine ⟨filename, rest, hname, ?_⟩
  dsimp only at h
  by_cases hmode : mode ≠ ascii "octet"
  · rw [if_pos hmode] at h
    cases h
    exact .inl ⟨rfl, _, _, rfl⟩
  rw [if_neg hmode] at h
  by_cases hvalid : ¬ validFilename filename
  · rw [if_pos hvalid] at h
    cases h
    exact .inl ⟨rfl, _, _, rfl⟩
  rw [if_neg hvalid] at h
  cases hread : isRead with
  | true =>
    simp only [hread, if_true] at h
    cases hfile : (s.erase remoteAddr remotePort).files filename with
    | none =>
      simp only [hfile, Outcome.pure_eq, Outcome.done.injEq, Prod.mk.injEq] at h
      exact .inl ⟨h.1.symm, _, _, h.2.symm⟩
    | some file =>
      simp only [hfile] at h
      obtain ⟨hlegal, h⟩ := Outcome.require_bind_eq_done.mp h
      obtain ⟨b, hb, h⟩ := Outcome.bind_eq_done.mp h
      cases h
      exact .inr (.inl ⟨rfl, file, hfile, hlegal, rfl, hb⟩)
  | false =>
    simp only [hread, Bool.false_eq_true, if_false] at h
    by_cases hexists : (s.erase remoteAddr remotePort).FileExists filename
    · rw [if_pos hexists] at h
      cases h
      exact .inl ⟨rfl, _, _, rfl⟩
    · rw [if_neg hexists] at h
      cases h
      exact .inr (.inr ⟨rfl, rfl, rfl⟩)

/-- An acknowledgment closes a session, or is answered with the next block. -/
theorem ackIn_eq_done (h : s.ackIn remoteAddr remotePort data = .done (s', out)) :
    ∃ k rest session, getU16 data = .done (k, rest) ∧
      s.find remoteAddr remotePort = some session ∧
      (s' = s.erase remoteAddr remotePort ∧ out = [] ∨
        s' = s ∧ session.putBlock (k + 1) = .done out) := by
  rw [ackIn] at h
  obtain ⟨⟨k, rest⟩, hk, h⟩ := Outcome.bind_eq_done.mp h
  obtain ⟨session, hfind, h⟩ := Outcome.bind_eq_done.mp h
  obtain ⟨-, h⟩ := Outcome.require_bind_eq_done.mp h
  refine ⟨k, rest, session, hk, Outcome.requireSome_eq_done.mp hfind, ?_⟩
  by_cases hlast : k = session.blockCount
  · rw [if_pos hlast] at h
    cases h
    exact .inl ⟨rfl, rfl⟩
  · rw [if_neg hlast] at h
    obtain ⟨b, hb, h⟩ := Outcome.bind_eq_done.mp h
    cases h
    exact .inr ⟨rfl, hb⟩

/-- Files are not overwritten. -/
def KeepsFiles (s s' : Server) : Prop :=
  ∀ filename file, s.files filename = some file → s'.files filename = some file

/-- A file is written, or exists already. -/
theorem storeFile_eq_done (h : s.storeFile host x = .done (s', out)) : x.filename_ ≠ [] ∧
    (s.FileExists (x.filename_ ++ host.tail) ∧ s' = s ∧
        out = putErrorReply ErrorCode.accessViolation "File exists" ∨
      ¬ s.FileExists (x.filename_ ++ host.tail) ∧ host.opens = true ∧
        s' = s.writeFile (x.filename_ ++ host.tail) x.data_ ∧ out = []) := by
  rw [storeFile] at h
  obtain ⟨hname, h⟩ := Outcome.require_bind_eq_done.mp h
  refine ⟨hname, ?_⟩
  dsimp only at h
  by_cases hexists : s.FileExists (x.filename_ ++ host.tail)
  · rw [if_pos hexists] at h
    cases h
    exact .inl ⟨hexists, rfl, rfl⟩
  · rw [if_neg hexists] at h
    obtain ⟨hopens, h⟩ := Outcome.require_bind_eq_done.mp h
    cases h
    exact .inr ⟨hexists, hopens, rfl, rfl⟩

/-- Writing a file changes the files only, and none that exists. -/
theorem storeFile_frame (h : s.storeFile host x = .done (s', out)) : s'.sessions_ = s.sessions_ ∧
    s'.finished = s.finished ∧ s'.done = s.done ∧ KeepsFiles s s' ∧ out.length ≤ 512 := by
  obtain ⟨-, ⟨-, rfl, rfl⟩ | ⟨hnew, -, rfl, rfl⟩⟩ := storeFile_eq_done h
  · exact ⟨rfl, rfl, rfl, fun _ _ hf => hf, by decide⟩
  · refine ⟨rfl, rfl, rfl, fun filename file hf => ?_, Nat.zero_le _⟩
    -- the file that is written did not exist
    have hne : filename ≠ x.filename_ ++ host.tail := by
      rintro rfl
      exact hnew (by simp [FileExists, hf])
    exact (Function.update_of_ne hne _ _).trans hf

/-- A block is added to the session, and closes it if it is a short one. -/
theorem dataIn_eq_done (h : s.dataIn host remoteAddr remotePort data = .done (s', out)) :
    ∃ k payload x y, getU16 data = .done (k, payload) ∧
      s.find remoteAddr remotePort = some x ∧
      x.gotData k payload (u16 payload.length) = .done (k, y) ∧ KeepsFiles s s' ∧
      (payload.length < 512 ∧ s'.sessions_ = (s.erase remoteAddr remotePort).sessions_ ∧
          s'.finished = y :: s.finished ∧ (∃ rest, rest.length ≤ 512 ∧ out = putAck k ++ rest) ∨
        512 ≤ payload.length ∧ s' = s.update remoteAddr remotePort y ∧ out = putAck k) := by
  rw [dataIn] at h
  obtain ⟨⟨k, payload⟩, hk, h₁⟩ := Outcome.bind_eq_done.mp h
  obtain ⟨x, hfind, h₂⟩ := Outcome.bind_eq_done.mp h₁
  obtain ⟨⟨expected, y⟩, hgot, h₃⟩ := Outcome.bind_eq_done.mp h₂
  clear h h₁ h₂
  obtain rfl : expected = k := (Session.gotData_eq_done hgot).2.2.1
  refine ⟨expected, payload, x, y, hk, Outcome.requireSome_eq_done.mp hfind, hgot, ?_⟩
  dsimp only at h₃
  by_cases hshort : payload.length < blockSize
  · rw [if_pos hshort] at h₃
    obtain ⟨⟨s₁, error⟩, hstore, h₃⟩ := Outcome.bind_eq_done.mp h₃
    obtain ⟨hsessions, hfinished, -, hfiles, hlength⟩ := storeFile_frame hstore
    cases h₃
    refine ⟨hfiles, .inl ⟨hshort, ?_, congrArg (y :: ·) hfinished, error, hlength, rfl⟩⟩
    exact congrArg (List.eraseP _) hsessions
  · rw [if_neg hshort] at h₃
    cases h₃
    exact ⟨fun _ _ hf => hf, .inr ⟨not_lt.mp hshort, rfl, rfl⟩⟩

/-- The branch of the opcode. -/
theorem packetIn_eq {opcode : Opcode} (hop : getOpcode buf = .done (opcode, data))
    (h : s.packetIn host remoteAddr remotePort buf = .done (s', out)) :
    (match opcode with
      | .rrq => s.request true remoteAddr remotePort data
      | .wrq => s.request false remoteAddr remotePort data
      | .ack => s.ackIn remoteAddr remotePort data
      | .data => s.dataIn host remoteAddr remotePort data
      | _ => .done ({ s with done := true },
          putErrorReply ErrorCode.illegalOperation "Unsupported TFTP opcode")) =
      .done (s', out) := by
  rw [packetIn] at h
  rw [hop] at h
  exact (Outcome.require_bind_eq_done.mp h).2

/-- **What a packet does not do**: it changes no sessions of other clients and
no files that exist, and forgets nothing that was received. -/
theorem packetIn_frame (h : s.packetIn host remoteAddr remotePort buf = .done (s', out)) :
    (∀ x ∈ s'.sessions_, x ∈ s.sessions_ ∨ x.IsFrom remoteAddr remotePort) ∧
      (∀ x ∈ s.finished, x ∈ s'.finished) ∧ KeepsFiles s s' := by
  rw [packetIn] at h
  obtain ⟨-, h⟩ := Outcome.require_bind_eq_done.mp h
  obtain ⟨⟨opcode, data⟩, -, h⟩ := Outcome.bind_eq_done.mp h
  have hrequest : ∀ {isRead}, s.request isRead remoteAddr remotePort data = .done (s', out) →
      (∀ x ∈ s'.sessions_, x ∈ s.sessions_ ∨ x.IsFrom remoteAddr remotePort) ∧
        (∀ x ∈ s.finished, x ∈ s'.finished) ∧ KeepsFiles s s' := by
    intro isRead h
    obtain ⟨filename, rest, -, ⟨rfl, -⟩ | ⟨-, file, -, -, rfl, -⟩ | ⟨-, -, rfl⟩⟩ := request_eq_done h
    · exact ⟨fun x hx => .inl (mem_erase hx), fun _ hx => hx, fun _ _ hf => hf⟩
    · refine ⟨fun x hx => ?_, fun _ hx => hx, fun _ _ hf => hf⟩
      rcases mem_push.mp hx with hx | rfl
      · exact .inl (mem_erase hx)
      · exact .inr ⟨rfl, rfl⟩
    · refine ⟨fun x hx => ?_, fun _ hx => hx, fun _ _ hf => hf⟩
      rcases mem_push.mp hx with hx | rfl
      · exact .inl (mem_erase hx)
      · exact .inr ⟨rfl, rfl⟩
  cases opcode with
  | rrq => exact hrequest h
  | wrq => exact hrequest h
  | data =>
    obtain ⟨k, payload, x, y, -, hfind, hgot, hfiles, ⟨-, hsessions, hfinished, -⟩ | ⟨-, rfl, -⟩⟩ :=
      dataIn_eq_done h
    · refine ⟨fun z hz => .inl (mem_erase (hsessions ▸ hz)), fun z hz => ?_, hfiles⟩
      rw [hfinished]
      exact List.mem_cons_of_mem _ hz
    · refine ⟨fun z hz => ?_, fun _ hz => hz, hfiles⟩
      rcases mem_update hz with hz | rfl
      · exact .inl hz
      · -- the session keeps its client
        obtain ⟨-, -, -, -, rfl⟩ := Session.gotData_eq_done hgot
        exact .inr (find_eq_some hfind).2
  | ack =>
    obtain ⟨k, rest, x, -, -, ⟨rfl, -⟩ | ⟨rfl, -⟩⟩ := ackIn_eq_done h
    · exact ⟨fun x hx => .inl (mem_erase hx), fun _ hx => hx, fun _ _ hf => hf⟩
    · exact ⟨fun x hx => .inl hx, fun _ hx => hx, fun _ _ hf => hf⟩
  | error =>
    cases h
    exact ⟨fun x hx => .inl hx, fun _ hx => hx, fun _ _ hf => hf⟩
  | other n =>
    cases h
    exact ⟨fun x hx => .inl hx, fun _ hx => hx, fun _ _ hf => hf⟩

/-- The sessions that a packet completes are of its client. -/
theorem packetIn_finished (h : s.packetIn host remoteAddr remotePort buf = .done (s', out)) :
    ∀ x ∈ s'.finished, x ∈ s.finished ∨ x.IsFrom remoteAddr remotePort := by
  rw [packetIn] at h
  obtain ⟨-, h⟩ := Outcome.require_bind_eq_done.mp h
  obtain ⟨⟨opcode, data⟩, -, h⟩ := Outcome.bind_eq_done.mp h
  have hrequest : ∀ {isRead}, s.request isRead remoteAddr remotePort data = .done (s', out) →
      ∀ x ∈ s'.finished, x ∈ s.finished ∨ x.IsFrom remoteAddr remotePort := by
    intro isRead h x hx
    obtain ⟨filename, rest, -, ⟨rfl, -⟩ | ⟨-, file, -, -, rfl, -⟩ | ⟨-, -, rfl⟩⟩ := request_eq_done h
    all_goals exact .inl hx
  cases opcode with
  | rrq => exact hrequest h
  | wrq => exact hrequest h
  | data =>
    intro z hz
    obtain ⟨k, payload, x, y, -, hfind, hgot, -, ⟨-, -, hfinished, -⟩ | ⟨-, rfl, -⟩⟩ :=
      dataIn_eq_done h
    · rw [hfinished, List.mem_cons] at hz
      rcases hz with rfl | hz
      · obtain ⟨-, -, -, -, rfl⟩ := Session.gotData_eq_done hgot
        exact .inr (find_eq_some hfind).2
      · exact .inl hz
    · exact .inl hz
  | ack =>
    obtain ⟨k, rest, x, -, -, ⟨rfl, -⟩ | ⟨rfl, -⟩⟩ := ackIn_eq_done h
    · exact fun x hx => .inl hx
    · exact fun x hx => .inl hx
  | error =>
    cases h
    exact fun x hx => .inl hx
  | other n =>
    cases h
    exact fun x hx => .inl hx

/-- A packet of another client leaves the sessions of this one alone. -/
theorem ReceivesOther.frame (h : s.ReceivesOther remoteAddr remotePort s') :
    (∀ x ∈ s'.sessions_, x.IsFrom remoteAddr remotePort → x ∈ s.sessions_) ∧
      (∀ x ∈ s.finished, x ∈ s'.finished) ∧ KeepsFiles s s' := by
  obtain ⟨-, host, remoteAddr', remotePort', buf, answer, hne, -, hrun⟩ := h
  obtain ⟨hsessions, hfinished, hfiles⟩ := packetIn_frame hrun
  refine ⟨fun x hx hfrom => (hsessions x hx).resolve_right fun hfrom' => hne ?_, hfinished, hfiles⟩
  exact ⟨hfrom'.1.symm.trans hfrom.1, hfrom'.2.symm.trans hfrom.2⟩

/-- It completes no session of this one. -/
theorem ReceivesOther.finished (h : s.ReceivesOther remoteAddr remotePort s') :
    ∀ x ∈ s'.finished, x.IsFrom remoteAddr remotePort → x ∈ s.finished := by
  obtain ⟨-, host, remoteAddr', remotePort', buf, answer, hne, -, hrun⟩ := h
  intro x hx hfrom
  refine (packetIn_finished hrun x hx).resolve_right fun hfrom' => hne ?_
  exact ⟨hfrom'.1.symm.trans hfrom.1, hfrom'.2.symm.trans hfrom.2⟩

end Server

end Effects

end Attos.Net.Tftp
