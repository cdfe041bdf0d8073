import Attos.Net.TftpUpload

/-!
# Packets out of sequence

Which packets and ticks make a party of a transfer abort. A block must be the
next one and must find its session, on either side; an acknowledgment must find
its session; an error is never handled; and a reader must not wait too long for
its second block. A file that is complete must have a name, and be written
(`Server.Storable`). So a packet that the network delivers twice, or that a timeout
sends again, can end the server or the client (`transfers_never_abort`).
-/

namespace Attos.Net.Tftp

open Lib

/-! ## Events -/

/-- What can happen to the parties of a transfer. -/
inductive Event : Type where
  /-- the server receives a packet of the client -/
  | toServer : Host → List UInt8 → Event
  /-- the client receives a packet -/
  | toClient : List UInt8 → Event
  /-- the timer of the client ticks -/
  | tick : Event

section Events

variable {σ : Type}

/-- The packet was sent, and the server is still there to receive it. -/
def Event.Possible (n : Network (Client σ) Server (List UInt8)) : Event → Prop
  | toServer _ p => n.server.done = false ∧ p ∈ n.toServer
  | toClient p => p ∈ n.toClient
  | tick => True

/-- No check of the party fails. -/
def Event.Returns (o : Operation σ) (remoteAddr : Ipv4Address) (remotePort : ℕ)
    (n : Network (Client σ) Server (List UInt8)) : Event → Prop
  | toServer host p => (n.server.packetIn host remoteAddr remotePort p).Returns
  | toClient p => (o.tftpIn n.client p).Returns
  | tick => (o.tick n.client).Returns

/-- A step of a transfer in which only events with `C` make a party abort; there
is no state after that. -/
inductive TransferStep (P : Protocol (Client σ) Server (List UInt8)) (o : Operation σ)
    (remoteAddr : Ipv4Address) (remotePort : ℕ)
    (C : Network (Client σ) Server (List UInt8) → Event → Prop) :
    Option (Network (Client σ) Server (List UInt8)) →
      Option (Network (Client σ) Server (List UInt8)) → Prop where
  /-- the transfer goes on -/
  | goOn {n n' : Network (Client σ) Server (List UInt8)} :
      P.Step n n' → TransferStep P o remoteAddr remotePort C (some n) (some n')
  /-- a party aborts -/
  | abort {n : Network (Client σ) Server (List UInt8)} {e : Event} :
      e.Possible n → C n e → ¬ e.Returns o remoteAddr remotePort n →
        TransferStep P o remoteAddr remotePort C (some n) none

/-- In no run does an event with `C` make a party abort. -/
def NeverAborts (P : Protocol (Client σ) Server (List UInt8)) (o : Operation σ)
    (remoteAddr : Ipv4Address) (remotePort : ℕ)
    (C : Network (Client σ) Server (List UInt8) → Event → Prop) : Prop :=
  ∀ t, Reach (fun t => ∃ n, t = some n ∧ P.Init n) (TransferStep P o remoteAddr remotePort C) t →
    t ≠ none

variable {P : Protocol (Client σ) Server (List UInt8)} {o : Operation σ}
  {remoteAddr : Ipv4Address} {remotePort : ℕ}
  {C : Network (Client σ) Server (List UInt8) → Event → Prop}

/-- **The rule for events that do not abort.** -/
theorem neverAborts_of_returns (h : ∀ n, P.Reachable n → ∀ e : Event, e.Possible n → C n e →
    e.Returns o remoteAddr remotePort n) : NeverAborts P o remoteAddr remotePort C := by
  intro t ht
  have hreach : ∃ n, t = some n ∧ P.Reachable n := by
    apply Reach.invariant (fun t => ∃ n, t = some n ∧ P.Reachable n) ht
    · rintro t ⟨n, rfl, hn⟩
      exact ⟨n, rfl, .start hn⟩
    · rintro t t' ⟨n, rfl, hn⟩ hstep
      cases hstep with
      | goOn hstep => exact ⟨_, rfl, hn.step hstep⟩
      | abort hpossible hC hnot => exact absurd (h n hn _ hpossible hC) hnot
  obtain ⟨n, rfl, -⟩ := hreach
  simp

/-- A transfer that can abort does so in some run. -/
theorem not_neverAborts {n : Network (Client σ) Server (List UInt8)} {e : Event}
    (hn : P.Reachable n) (he : e.Possible n) (hC : C n e)
    (hnot : ¬ e.Returns o remoteAddr remotePort n) :
    ¬ NeverAborts P o remoteAddr remotePort C := by
  intro hnever
  have hsome : ∀ n, P.Reachable n → Reach (fun t => ∃ n, t = some n ∧ P.Init n)
      (TransferStep P o remoteAddr remotePort C) (some n) := by
    intro n hn
    induction hn with
    | start hinit => exact .start ⟨_, rfl, hinit⟩
    | step _ hstep ih => exact .step ih (.goOn hstep)
  exact hnever none (.step (hsome n hn) (.abort he hC hnot)) rfl

end Events

/-! ## When the server returns -/

section Server

variable {s : Server} {remoteAddr : Ipv4Address} {remotePort : ℕ} {host : Host}

/-- The branch of the opcode, which the packet determines. -/
theorem Server.packetIn_returns {op : Opcode} {data : List UInt8} (hop : ∀ n, op ≠ .other n)
    (hremote : remoteAddr ≠ inaddrBroadcast) :
    (s.packetIn host remoteAddr remotePort (putOpcode op ++ data)).Returns ↔
      (match op with
        | .rrq => s.request true remoteAddr remotePort data
        | .wrq => s.request false remoteAddr remotePort data
        | .ack => s.ackIn remoteAddr remotePort data
        | .data => s.dataIn host remoteAddr remotePort data
        | _ => .done ({ s with done := true },
            putErrorReply ErrorCode.illegalOperation "Unsupported TFTP opcode")).Returns := by
  rw [packetIn, Outcome.require_pos hremote, Outcome.done_bind, getOpcode_putOpcode hop,
    Outcome.done_bind]
  cases op <;> rfl

/-- A write request always returns. -/
theorem Server.writeRequest_returns (filename : CString) (hremote : remoteAddr ≠ inaddrBroadcast) :
    (s.packetIn host remoteAddr remotePort (putRequest .wrq filename)).Returns := by
  rw [putRequest, List.append_assoc, Server.packetIn_returns (by simp) hremote]
  change (s.request false remoteAddr remotePort _).Returns
  have hmode : getString (putString (ascii "octet")) = .done (ascii "octet", []) := rfl
  rw [request, getString_putString filename.nonzero, Outcome.done_bind]
  dsimp only
  rw [hmode, Outcome.done_bind]
  dsimp only
  split_ifs <;> first | exact Outcome.done_returns _ | contradiction

/-- The first block of a file is there. -/
theorem Session.putBlock_returns {x : Session} {k : ℕ} (hread : x.isRead_ = true) (hk : 1 ≤ k)
    (hk' : k ≤ x.blockCount) : (x.putBlock k).Returns := by
  rw [putBlock, Outcome.require_pos hread, Outcome.done_bind, Outcome.require_pos ⟨hk, hk'⟩]
  exact Outcome.done_returns _

/-- A read request returns, unless the file is too large. -/
theorem Server.readRequest_returns (filename : CString) (hremote : remoteAddr ≠ inaddrBroadcast) :
    (s.packetIn host remoteAddr remotePort (putRequest .rrq filename)).Returns ↔
      ∀ file, validFilename filename.chars = true → s.files filename.chars = some file →
        LegalSize file.length := by
  rw [putRequest, List.append_assoc, Server.packetIn_returns (by simp) hremote]
  change (s.request true remoteAddr remotePort _).Returns ↔ _
  have hmode : getString (putString (ascii "octet")) = .done (ascii "octet", []) := rfl
  rw [request, getString_putString filename.nonzero, Outcome.done_bind]
  dsimp only
  rw [hmode, Outcome.done_bind]
  dsimp only
  rw [if_neg (by simp)]
  by_cases hvalid : validFilename filename.chars = true
  · rw [if_neg (not_not.mpr hvalid), if_pos rfl]
    -- erasing a session does not change the files
    have herase : (s.erase remoteAddr remotePort).files = s.files := rfl
    rw [herase]
    cases hfile : s.files filename.chars with
    | none => simp
    | some file =>
      simp only [Outcome.require_bind_returns, hvalid, Option.some.injEq, forall_const,
        forall_eq', and_iff_left_iff_imp]
      intro hlegal
      have hput := @Session.putBlock_returns
        ⟨remoteAddr, remotePort, filename.chars, true, file, []⟩ 1 rfl le_rfl
        (by rw [Session.blockCount, blockCount_eq hlegal]; exact Nat.le_add_left _ _)
      obtain ⟨b, hb⟩ := hput
      exact Outcome.bind_returns.mpr ⟨b, hb, Outcome.done_returns _⟩
  · rw [if_pos hvalid]
    simp [hvalid]

/-- A session takes the next block only. -/
theorem Session.gotData_returns {x : Session} {k size : ℕ} {data : List UInt8} :
    (x.gotData k data size).Returns ↔ x.isRead_ = false ∧ 0 < k ∧ size ≤ blockSize ∧
      k = u16 (1 + x.data_.length / blockSize) := by
  simp [gotData, Outcome.require_bind_returns]

/-- The file of a session can be written, or exists already. -/
def Server.Storable (s : Server) (host : Host) (x : Session) : Prop :=
  x.filename_ ≠ [] ∧ (s.FileExists (x.filename_ ++ host.tail) ∨ host.opens = true)

/-- Then this returns. -/
theorem Server.storeFile_returns {x : Session} : (s.storeFile host x).Returns ↔ s.Storable host x := by
  rw [storeFile, Outcome.require_bind_returns, Storable]
  refine and_congr_right fun _ => ?_
  dsimp only
  by_cases hexists : s.FileExists (x.filename_ ++ host.tail)
  · rw [if_pos hexists]
    exact iff_of_true (Outcome.done_returns _) (.inl hexists)
  · rw [if_neg hexists, Outcome.require_bind_returns]
    simp [hexists]

/-- A block returns if it is the next one of its session, and, if it is the last one, the file can be
written. -/
theorem Server.data_returns {k : ℕ} {payload : List UInt8} (hk : k < 2 ^ 16)
    (hremote : remoteAddr ≠ inaddrBroadcast) :
    (s.packetIn host remoteAddr remotePort (putData k payload)).Returns ↔
      ∃ x, s.find remoteAddr remotePort = some x ∧ (x.isRead_ = false ∧ 0 < k ∧
        u16 payload.length ≤ blockSize ∧ k = u16 (1 + x.data_.length / blockSize)) ∧
          (payload.length < blockSize → s.Storable host x) := by
  rw [putData, List.append_assoc, Server.packetIn_returns (by simp) hremote]
  change (s.dataIn host remoteAddr remotePort _).Returns ↔ _
  rw [dataIn, getU16_put16 hk, Outcome.done_bind]
  cases hfind : s.find remoteAddr remotePort with
  | none => simp [Outcome.requireSome]
  | some x =>
    simp only [Outcome.requireSome_some, Outcome.done_bind, Option.some.injEq, exists_eq_left']
    rw [← Session.gotData_returns, Outcome.bind_returns]
    have hstore : ∀ y : Session, y.filename_ = x.filename_ →
        ((s.storeFile host y).Returns ↔ s.Storable host x) := by
      intro y hy
      rw [storeFile_returns, Storable, Storable, hy]
    constructor
    · rintro ⟨⟨expected, y⟩, hgot, hrest⟩
      refine ⟨⟨_, hgot⟩, fun hshort => (hstore y (Session.gotData_filename hgot)).mp ?_⟩
      dsimp only at hrest
      rw [if_pos hshort] at hrest
      obtain ⟨stored, hstored, -⟩ := Outcome.bind_returns.mp hrest
      exact ⟨stored, hstored⟩
    · rintro ⟨⟨⟨expected, y⟩, hgot⟩, hstorable⟩
      refine ⟨(expected, y), hgot, ?_⟩
      dsimp only
      split_ifs with hshort
      · obtain ⟨stored, hstored⟩ := (hstore y (Session.gotData_filename hgot)).mpr (hstorable hshort)
        exact Outcome.bind_returns.mpr ⟨stored, hstored, Outcome.done_returns _⟩
      · exact Outcome.done_returns _

/-- An acknowledgment returns if it is one of a block of its session. -/
theorem Server.ack_returns {k : ℕ} (hk : k < 2 ^ 16) (hremote : remoteAddr ≠ inaddrBroadcast) :
    (s.packetIn host remoteAddr remotePort (putAck k)).Returns ↔
      ∃ x, s.find remoteAddr remotePort = some x ∧ 1 ≤ k ∧ k ≤ x.blockCount ∧
        (k < x.blockCount → x.isRead_ = true) := by
  rw [putAck, Server.packetIn_returns (by simp) hremote]
  change (s.ackIn remoteAddr remotePort _).Returns ↔ _
  rw [ackIn, ← List.append_nil (put16 k), getU16_put16 hk, Outcome.done_bind]
  cases hfind : s.find remoteAddr remotePort with
  | none => simp [Outcome.requireSome]
  | some x =>
    simp only [Outcome.requireSome_some, Outcome.done_bind, Option.some.injEq, exists_eq_left',
      Outcome.require_bind_returns, and_assoc]
    refine and_congr_right fun hlo => and_congr_right fun hhi => ?_
    by_cases hlast : k = x.blockCount
    · rw [if_pos hlast]
      simp [hlast]
    · have hlt : k < x.blockCount := lt_of_le_of_ne hhi hlast
      rw [if_neg hlast, Outcome.bind_returns]
      constructor
      · rintro ⟨b, hb, -⟩ -
        rw [Session.putBlock] at hb
        exact (Outcome.require_bind_eq_done.mp hb).1
      · intro hread
        obtain ⟨b, hb⟩ := Session.putBlock_returns (hread hlt) (Nat.le_add_left 1 k) hlt
        exact ⟨b, hb, Outcome.done_returns _⟩

end Server

/-! ## Reading -/

/-- The reader and a server with any files. -/
def readProtocol (remoteAddr : Ipv4Address) (remotePort : ℕ) (filename : CString) :
    Protocol (Client Reader) Server (List UInt8) where
  clientInit c out := Reader.construct filename = .done (c, out)
  serverInit s := s.done = false ∧ ∀ x ∈ s.sessions_, ¬ x.IsFrom remoteAddr remotePort
  clientReceive c p c' out := Reader.operation.tftpIn c p = .done (c', out)
  clientAct c c' out := ∃ r, Reader.operation.tick c = .done (r, c', out)
  serverReceive s p s' out := s.Receives remoteAddr remotePort p s' out
  serverAct s s' :=
    s.ReceivesOther remoteAddr remotePort s' ∨ ∃ files, s' = { s with files := files }

/-- The sessions of the client are for reading. -/
def Reading (remoteAddr : Ipv4Address) (remotePort : ℕ) (s : Server) : Prop :=
  ∀ x ∈ s.sessions_, x.IsFrom remoteAddr remotePort →
    x.isRead_ = true ∧ LegalSize x.data_.length

/-- A packet of a reader: its request, or an acknowledgment of a block. -/
def ReadPacket (filename : CString) (p : List UInt8) : Prop :=
  p = putRequest .rrq filename ∨ ∃ k, 1 ≤ k ∧ k < 2 ^ 16 ∧ p = putAck k

/-- What the server answers: an error or a block. -/
def ReadAnswer (p : List UInt8) : Prop :=
  (∃ ec msg, p = putErrorReply ec msg) ∨
    ∃ k data, k < 2 ^ 16 ∧ data.length ≤ blockSize ∧ p = putData k data

section Reading

variable {remoteAddr : Ipv4Address} {remotePort : ℕ} {filename : CString} {s s' : Server}
  {host : Host} {answer : List UInt8}

/-- A block that the server sends is one. -/
theorem readAnswer_of_putBlock {x : Session} {k : ℕ} (hx : LegalSize x.data_.length)
    (h : x.putBlock k = .done answer) : ReadAnswer answer := by
  obtain ⟨-, -, hle, rfl⟩ := Session.putBlock_eq_done hx h
  rw [LegalSize, blockSize] at hx
  refine .inr ⟨k, _, by omega, ?_, rfl⟩
  rw [length_block]
  exact min_le_left _ _

/-- **A packet of the reader** is answered with a block, an error or not at
all. -/
theorem Reading.receive {p : List UInt8} (hs : Reading remoteAddr remotePort s)
    (hp : ReadPacket filename p)
    (hrun : s.packetIn host remoteAddr remotePort p = .done (s', answer)) :
    Reading remoteAddr remotePort s' ∧ (answer ≠ [] → ReadAnswer answer) := by
  rcases hp with rfl | ⟨k, -, -, rfl⟩
  · have hop := @getOpcode_putRequest .rrq (by simp) filename
    obtain ⟨name, rest, -, ⟨rfl, herror⟩ | ⟨-, file, -, hlegal, rfl, hput⟩ | ⟨hread, -⟩⟩ :=
      Server.request_eq_done (Server.packetIn_eq hop hrun)
    · exact ⟨fun x hx => hs x (Server.mem_erase hx), fun _ => .inl herror⟩
    · refine ⟨fun x hx hfrom => ?_, fun _ => readAnswer_of_putBlock hlegal hput⟩
      rcases Server.mem_push.mp hx with hx | rfl
      · exact hs x (Server.mem_erase hx) hfrom
      · exact ⟨rfl, hlegal⟩
    · cases hread
  · have hop : getOpcode (putAck k) = .done (.ack, put16 k) := getOpcode_putOpcode (by simp) _
    obtain ⟨k', rest, x, -, hfind, ⟨rfl, rfl⟩ | ⟨rfl, hput⟩⟩ :=
      Server.ackIn_eq_done (Server.packetIn_eq hop hrun)
    · exact ⟨fun x hx => hs x (Server.mem_erase hx), fun h => absurd rfl h⟩
    · obtain ⟨hx, hfrom⟩ := Server.find_eq_some hfind
      exact ⟨hs, fun _ => readAnswer_of_putBlock (hs x hx hfrom).2 hput⟩

/-- What holds of every transfer of a reader. -/
def readContract : Contract (readProtocol remoteAddr remotePort filename) where
  server s := Reading remoteAddr remotePort s
  client _ c := c.op.filename_ = filename
  toServer p := ReadPacket filename p
  toClient _ p := ReadAnswer p
  server_init s hs x hx hfrom := absurd hfrom (hs.2 x hx)
  client_init s c out _ hc := by
    rw [readProtocol, Reader.construct] at hc
    obtain ⟨-, hc⟩ := Outcome.require_bind_eq_done.mp hc
    cases hc
    exact ⟨rfl, fun p hp => .inl (List.mem_singleton.mp hp)⟩
  client_receive s c p c' out hc hp hrun := by
    obtain ⟨opcode, data, hop, hhandled⟩ := Operation.tftpIn_eq_done hrun
    obtain ⟨rfl, payload, hnum, hc', rfl⟩ := Reader.onPacket_eq_done hhandled
    rw [hc']
    refine ⟨hc, fun q hq => .inr ⟨c.op.lastBlock_ + 1, Nat.le_add_left _ _, ?_,
      List.mem_singleton.mp hq⟩⟩
    -- the number is read from two bytes
    obtain ⟨-, hnum⟩ := Outcome.require_bind_eq_done.mp hnum
    simp only [Outcome.pure_eq, Outcome.done.injEq, Prod.mk.injEq] at hnum
    rw [← hnum.1]
    exact be16_lt _ _
  client_act s c c' out hc hrun := by
    obtain ⟨r, hrun⟩ := hrun
    rcases Operation.tick_eq_done hrun with ⟨hop, rfl⟩ | htimeout
    · rw [hop]
      exact ⟨hc, fun p hp => absurd hp List.not_mem_nil⟩
    · change c.op.onTimeout = _ at htimeout
      rw [Reader.onTimeout] at htimeout
      split_ifs at htimeout
      simp only [Reader.sendRrq, Outcome.done.injEq, Prod.mk.injEq] at htimeout
      obtain ⟨hop, rfl⟩ := htimeout
      rw [← hop, hc]
      exact ⟨rfl, fun p hp => .inl (List.mem_singleton.mp hp)⟩
  server_receive s p s' out hs hp hrun := by
    obtain ⟨-, host, answer, hrun, rfl⟩ := hrun
    obtain ⟨hs', hanswer⟩ := hs.receive hp hrun
    refine ⟨hs', fun q hq => ?_, fun c hc => hc, fun q hq => hq⟩
    split_ifs at hq with hempty
    · exact absurd hq List.not_mem_nil
    · rw [List.mem_singleton.mp hq]
      exact hanswer hempty
  server_act s s' hs hrun := by
    refine ⟨?_, fun c hc => hc, fun p hp => hp⟩
    rcases hrun with hother | ⟨files, rfl⟩
    · exact fun x hx hfrom => hs x (hother.frame.1 x hx hfrom) hfrom
    · exact hs

end Reading

/-! ## Events in sequence -/

/-- A packet of a client is in sequence for the server: a file that is requested
has a legal size, and a block or an acknowledgment is for a session of the
client, which expects this block or has it. -/
def Server.InSequence (s : Server) (remoteAddr : Ipv4Address) (remotePort : ℕ)
    (p : List UInt8) : Prop :=
  (∀ filename file, p = putRequest .rrq filename → validFilename filename.chars = true →
    s.files filename.chars = some file → LegalSize file.length) ∧
  (∀ k data, IsData p k data → ∃ x, s.find remoteAddr remotePort = some x ∧
    k = x.data_.length / blockSize + 1) ∧
  ∀ k, IsAck p k → ∃ x, s.find remoteAddr remotePort = some x ∧ k ≤ x.blockCount

/-- If a packet is the last block of a file, this can be written. -/
def Server.Stores (s : Server) (host : Host) (remoteAddr : Ipv4Address) (remotePort : ℕ)
    (p : List UInt8) : Prop :=
  ∀ k data x, IsData p k data → data.length < blockSize → s.find remoteAddr remotePort = some x →
    s.Storable host x

/-- An event is in sequence for a reader: it receives the next block, and its
timer does not run out after the first one. -/
def ReaderInSequence (remoteAddr : Ipv4Address) (remotePort : ℕ)
    (n : Network (Client Reader) Server (List UInt8)) : Event → Prop
  | .toServer _ p => n.server.InSequence remoteAddr remotePort p
  | .toClient p => ∃ data, IsData p (n.client.op.lastBlock_ + 1) data
  | .tick => n.client.op.lastBlock_ = 0 ∨ n.client.op.done_ = true ∨ n.client.timeout_ ≠ 1

/-- An event is in sequence for a writer: it receives an acknowledgment, and its last block is
written. -/
def WriterInSequence (remoteAddr : Ipv4Address) (remotePort : ℕ)
    (n : Network (Client Writer) Server (List UInt8)) : Event → Prop
  | .toServer host p => n.server.InSequence remoteAddr remotePort p ∧
      n.server.Stores host remoteAddr remotePort p
  | .toClient p => ∃ k, IsAck p k
  | .tick => True

section InSequence

variable {s : Server} {remoteAddr : Ipv4Address} {remotePort : ℕ} {filename : CString}
  {host : Host} {file : List UInt8}

/-- Requests for different files are different. -/
theorem putRequest_injective {op op' : Opcode} {filename filename' : CString}
    (hop : ∀ n, op ≠ .other n) (hop' : ∀ n, op' ≠ .other n)
    (h : putRequest op filename = putRequest op' filename') :
    op = op' ∧ filename.chars = filename'.chars := by
  have hget := getOpcode_putRequest hop filename
  rw [h, getOpcode_putRequest hop' filename'] at hget
  simp only [Outcome.done.injEq, Prod.mk.injEq] at hget
  have hname := getString_putString filename.nonzero (putString (ascii "octet"))
  rw [← hget.2, getString_putString filename'.nonzero] at hname
  simp only [Outcome.done.injEq, Prod.mk.injEq, and_true] at hname
  exact ⟨hget.1.symm, hname.symm⟩

/-- **For a read request.** -/
theorem Server.inSequence_rrq :
    s.InSequence remoteAddr remotePort (putRequest .rrq filename) ↔
      ∀ file, validFilename filename.chars = true → s.files filename.chars = some file →
        LegalSize file.length := by
  have hop := @getOpcode_putRequest .rrq (by simp) filename
  constructor
  · intro h file
    exact h.1 filename file rfl
  · intro h
    refine ⟨fun filename' file heq => ?_, fun k data => ?_, fun k => ?_⟩
    · rw [← (putRequest_injective (by simp) (by simp) heq).2]
      exact h file
    · rintro ⟨rest, hdata, -⟩
      rw [hop] at hdata
      cases hdata
    · rintro ⟨rest, rest', hack, -⟩
      rw [hop] at hack
      cases hack

/-- **For a write request.** -/
theorem Server.inSequence_wrq :
    s.InSequence remoteAddr remotePort (putRequest .wrq filename) := by
  have hop := @getOpcode_putRequest .wrq (by simp) filename
  refine ⟨fun filename' file heq => ?_, fun k data => ?_, fun k => ?_⟩
  · cases (putRequest_injective (by simp) (by simp) heq).1
  · rintro ⟨rest, hdata, -⟩
    rw [hop] at hdata
    cases hdata
  · rintro ⟨rest, rest', hack, -⟩
    rw [hop] at hack
    cases hack

/-- **For a block.** -/
theorem Server.inSequence_data {k : ℕ} (hk : k < 2 ^ 16) (data : List UInt8) :
    s.InSequence remoteAddr remotePort (putData k data) ↔
      ∃ x, s.find remoteAddr remotePort = some x ∧ k = x.data_.length / blockSize + 1 := by
  have hop : getOpcode (putData k data) = .done (.data, put16 k ++ data) := by
    rw [putData, List.append_assoc, getOpcode_putOpcode (by simp)]
  constructor
  · exact fun h => h.2.1 k data (isData_putData_self hk data)
  · intro h
    refine ⟨fun filename' file heq => ?_, fun k' data' hdata => ?_, fun k' => ?_⟩
    · rw [heq, getOpcode_putRequest (by simp)] at hop
      cases hop
    · rw [(isData_putData hk hdata).1]
      exact h
    · rintro ⟨rest, rest', hack, -⟩
      rw [hop] at hack
      cases hack

/-- **For an acknowledgment.** -/
theorem Server.inSequence_ack {k : ℕ} (hk : k < 2 ^ 16) :
    s.InSequence remoteAddr remotePort (putAck k) ↔
      ∃ x, s.find remoteAddr remotePort = some x ∧ k ≤ x.blockCount := by
  have hop : getOpcode (putAck k) = .done (.ack, put16 k) := getOpcode_putOpcode (by simp) _
  have hself := isAck_putAck_self hk []
  rw [List.append_nil] at hself
  constructor
  · exact fun h => h.2.2 k hself
  · intro h
    refine ⟨fun filename' file heq => ?_, fun k' data => ?_, fun k' hack => ?_⟩
    · rw [heq, getOpcode_putRequest (by simp)] at hop
      cases hop
    · rintro ⟨rest, hdata, -⟩
      rw [hop] at hdata
      cases hdata
    · rw [← List.append_nil (putAck k)] at hack
      rw [isAck_putAck hk hack]
      exact h

/-- **The server returns for packets of a reader in sequence.** -/
theorem Reading.returns_iff {p : List UInt8} (hremote : remoteAddr ≠ inaddrBroadcast)
    (hs : Reading remoteAddr remotePort s) (hp : ReadPacket filename p) :
    (s.packetIn host remoteAddr remotePort p).Returns ↔ s.InSequence remoteAddr remotePort p := by
  rcases hp with rfl | ⟨k, hlo, hk, rfl⟩
  · rw [Server.inSequence_rrq, Server.readRequest_returns filename hremote]
  · rw [Server.inSequence_ack hk, Server.ack_returns hk hremote]
    refine exists_congr fun x => and_congr_right fun hfind => ?_
    obtain ⟨hx, hfrom⟩ := Server.find_eq_some hfind
    simp [hlo, (hs x hx hfrom).1]

/-- **What is stored** with a packet of a writer. -/
theorem Server.stores_wrq : s.Stores host remoteAddr remotePort (putRequest .wrq filename) := by
  rintro k data x ⟨rest, hdata, -⟩
  rw [getOpcode_putRequest (by simp)] at hdata
  cases hdata

theorem Server.stores_data {k : ℕ} (hk : k < 2 ^ 16) (data : List UInt8) :
    s.Stores host remoteAddr remotePort (putData k data) ↔ (data.length < blockSize →
      ∀ x, s.find remoteAddr remotePort = some x → s.Storable host x) := by
  constructor
  · exact fun h hshort x => h k data x (isData_putData_self hk data) hshort
  · intro h k' data' x hdata hshort
    obtain ⟨-, rfl⟩ := isData_putData hk hdata
    exact h hshort x

/-- **The server returns for packets of a writer in sequence**, if the last one is stored. -/
theorem Uploading.returns_iff {p : List UInt8} (hremote : remoteAddr ≠ inaddrBroadcast)
    (hfile : LegalSize file.length) (hs : Uploading remoteAddr remotePort file s)
    (hp : UploadPacket filename file p) :
    (s.packetIn host remoteAddr remotePort p).Returns ↔
      s.InSequence remoteAddr remotePort p ∧ s.Stores host remoteAddr remotePort p := by
  rcases hp with rfl | ⟨k, hlo, hhi, rfl⟩
  · exact iff_of_true (Server.writeRequest_returns filename hremote)
      ⟨Server.inSequence_wrq, Server.stores_wrq⟩
  · have hk : k < 2 ^ 16 := by
      rw [LegalSize, blockSize] at hfile
      omega
    rw [Server.inSequence_data hk, Server.stores_data hk, Server.data_returns hk hremote]
    -- the session expects a block with the number of the packet
    have hnext : ∀ x, s.find remoteAddr remotePort = some x → ((x.isRead_ = false ∧ 0 < k ∧
        u16 (block file k).length ≤ blockSize ∧ k = u16 (1 + x.data_.length / blockSize)) ↔
          k = x.data_.length / blockSize + 1) := by
      intro x hfind
      obtain ⟨hx, hfrom⟩ := Server.find_eq_some hfind
      obtain ⟨j, hj⟩ := hs x hx hfrom
      have hlen : x.data_.length = 512 * j := by
        have hlt := hj.lt
        rw [hj.data, List.length_take, blockSize]
        omega
      have hblock := length_block file k
      have hlt := hj.lt
      rw [LegalSize, blockSize] at hfile
      rw [hlen, blockSize, u16, u16]
      constructor
      · rintro ⟨-, -, -, hnext⟩
        omega
      · rintro rfl
        exact ⟨hj.isRead, by omega, by omega, by omega⟩
    constructor
    · rintro ⟨x, hfind, hgot, hstores⟩
      refine ⟨⟨x, hfind, (hnext x hfind).mp hgot⟩, fun hshort y hy => ?_⟩
      rw [Option.some.inj (hy.symm.trans hfind)]
      exact hstores hshort
    · rintro ⟨⟨x, hfind, hk⟩, hstores⟩
      exact ⟨x, hfind, (hnext x hfind).mpr hk, fun hshort => hstores hshort x hfind⟩

/-- **A reader returns for the next block.** -/
theorem Reader.tftpIn_returns_iff {c : Client Reader} {p : List UInt8} (hp : ReadAnswer p) :
    (Reader.operation.tftpIn c p).Returns ↔ ∃ data, IsData p (c.op.lastBlock_ + 1) data := by
  rcases hp with ⟨ec, msg, rfl⟩ | ⟨k, data, hk, hle, rfl⟩
  · obtain ⟨rest, herror⟩ := getOpcode_putErrorReply ec msg
    refine iff_of_false (Operation.tftpIn_not_returns herror rfl) ?_
    rintro ⟨data, rest', hdata, -⟩
    rw [herror] at hdata
    cases hdata
  · have hop : getOpcode (putData k data) = .done (.data, put16 k ++ data) := by
      rw [putData, List.append_assoc, getOpcode_putOpcode (by simp)]
    have hlength : (putData k data).length ≤ 4 + blockSize := by
      simp only [putData, putOpcode, List.length_append, length_put16]
      omega
    rw [Operation.tftpIn_returns hlength hop]
    constructor
    · rintro ⟨⟨r, packets⟩, hr⟩
      change c.op.onPacket .data (put16 k ++ data) = .done (some (r, packets)) at hr
      obtain ⟨-, payload, hnum, -⟩ := Reader.onPacket_eq_done hr
      exact ⟨payload, put16 k ++ data, hop, hnum⟩
    · rintro ⟨data', hdata⟩
      obtain ⟨hnext, -⟩ := isData_putData hk hdata
      change ∃ r, c.op.onPacket .data (put16 k ++ data) = .done (some r)
      rw [Reader.onPacket, if_neg (by simp), getU16_put16 hk, Outcome.done_bind]
      dsimp only
      rw [Outcome.require_pos (by omega)]
      exact ⟨_, rfl⟩

/-- **A writer returns for an acknowledgment.** -/
theorem Writes.tftpIn_returns_iff {c : Client Writer} {p : List UInt8}
    (hc : Writes filename file c.op) (hfile : LegalSize file.length) (hp : UploadAnswer file p) :
    (Writer.operation.tftpIn c p).Returns ↔ ∃ k, IsAck p k := by
  rcases hp with ⟨ec, msg, rfl⟩ | ⟨k, rest, hk, hle, rfl⟩
  · obtain ⟨rest, herror⟩ := getOpcode_putErrorReply ec msg
    refine iff_of_false (Operation.tftpIn_not_returns herror rfl) ?_
    rintro ⟨k, data, data', hack, -⟩
    rw [herror] at hack
    cases hack
  · have hlt : k < 2 ^ 16 := by
      rw [LegalSize, blockSize] at hfile
      omega
    have hop : getOpcode (putAck k ++ rest) = .done (.ack, put16 k ++ rest) := by
      rw [putAck, List.append_assoc, getOpcode_putOpcode (by simp)]
    have hlength : (putAck k ++ rest).length ≤ 4 + blockSize := by
      simp only [putAck, putOpcode, List.length_append, length_put16, blockSize]
      omega
    refine iff_of_true ?_ ⟨k, isAck_putAck_self hlt rest⟩
    rw [Operation.tftpIn_returns hlength hop]
    change ∃ r, c.op.onPacket .ack (put16 k ++ rest) = .done (some r)
    have hcount : c.op.blockCount = file.length / 512 + 1 := by
      rw [Writer.blockCount, hc.data, blockCount_eq hfile]
    rw [Writer.onPacket, if_neg (by simp), getU16_put16 hlt, Outcome.done_bind]
    dsimp only
    rw [Outcome.require_pos (by omega), Outcome.done_bind]
    change ∃ r, (if k < c.op.blockCount then _ else _) = _
    split_ifs with hmore
    · -- there is a next block to send
      change ∃ r, (c.op.sendData (k + 1) >>= _) = _
      rw [Writer.sendData, Outcome.require_pos ⟨Nat.le_add_left _ _, hmore⟩]
      exact ⟨_, rfl⟩
    · exact ⟨_, rfl⟩

/-- A reader aborts when its timer runs out after the first block. -/
theorem Reader.tick_returns_iff {c : Client Reader} : (Reader.operation.tick c).Returns ↔
    c.op.lastBlock_ = 0 ∨ c.op.done_ = true ∨ c.timeout_ ≠ 1 := by
  rw [Operation.tick_returns]
  change (c.op.done_ = false → c.timeout_ = 1 → c.op.onTimeout.Returns) ↔ _
  rw [Reader.onTimeout]
  by_cases hlast : c.op.lastBlock_ = 0
  · simp [hlast]
  · rw [if_neg hlast]
    cases c.op.done_ <;> simp [hlast]

/-- A writer has something to send again. -/
theorem Writes.tick_returns {c : Client Writer} (hc : Writes filename file c.op)
    (hfile : LegalSize file.length) : (Writer.operation.tick c).Returns := by
  rw [Operation.tick_returns]
  intro hdone _
  have hcount : c.op.blockCount = file.length / 512 + 1 := by
    rw [Writer.blockCount, hc.data, blockCount_eq hfile]
  have hne : c.op.lastAck_ ≠ c.op.blockCount := by simpa [Writer.operation, Writer.isDone] using hdone
  change c.op.onTimeout.Returns
  rw [Writer.onTimeout]
  split_ifs with hno hlt
  · exact Outcome.done_returns _
  · rw [Writer.sendData, Outcome.require_pos ⟨Nat.le_add_left _ _, hlt⟩]
    exact Outcome.done_returns _
  · -- the acknowledged blocks are blocks of the file
    have hle := hc.lastAck.resolve_left hno
    omega

end InSequence

/-! ## Runs -/

section Runs

variable {remoteAddr : Ipv4Address} {remotePort : ℕ} {filename : CString} {file : List UInt8}

/-- In a run of a reader, an event does not abort if and only if it is in
sequence. -/
theorem reader_returns_iff {n : Network (Client Reader) Server (List UInt8)}
    (hremote : remoteAddr ≠ inaddrBroadcast)
    (hn : (readProtocol remoteAddr remotePort filename).Reachable n) {e : Event}
    (he : e.Possible n) :
    e.Returns Reader.operation remoteAddr remotePort n ↔
      ReaderInSequence remoteAddr remotePort n e := by
  have hholds := readContract.holds hn
  cases e with
  | toServer host p => exact Reading.returns_iff hremote hholds.server (hholds.toServer p he.2)
  | toClient p => exact Reader.tftpIn_returns_iff (hholds.toClient p he)
  | tick => exact Reader.tick_returns_iff

/-- In a run of a writer, an event does not abort if and only if it is in
sequence. -/
theorem writer_returns_iff {n : Network (Client Writer) Server (List UInt8)}
    (hremote : remoteAddr ≠ inaddrBroadcast) (hfile : LegalSize file.length)
    (hn : (uploadProtocol remoteAddr remotePort filename file).Reachable n) {e : Event}
    (he : e.Possible n) :
    e.Returns Writer.operation remoteAddr remotePort n ↔
      WriterInSequence remoteAddr remotePort n e := by
  have hholds := (prefixContract hfile).holds hn
  cases e with
  | toServer host p =>
    exact Uploading.returns_iff hremote hfile hholds.server.1 (hholds.toServer p he.2)
  | toClient p => exact hholds.client.tftpIn_returns_iff hfile (hholds.toClient p he)
  | tick => exact iff_of_true (hholds.client.tick_returns hfile) trivial

end Runs

/-- **Transfers whose events are in sequence never abort**, and every event that
is out of sequence makes a party abort. -/
theorem transfers_never_abort (remoteAddr : Ipv4Address) (remotePort : ℕ) (filename : CString)
    (file : List UInt8) (hremote : remoteAddr ≠ inaddrBroadcast) (hfile : LegalSize file.length) :
    NeverAborts (readProtocol remoteAddr remotePort filename) Reader.operation
        remoteAddr remotePort (ReaderInSequence remoteAddr remotePort) ∧
      NeverAborts (uploadProtocol remoteAddr remotePort filename file) Writer.operation
        remoteAddr remotePort (WriterInSequence remoteAddr remotePort) ∧
      (∀ n, (readProtocol remoteAddr remotePort filename).Reachable n →
        ∀ e : Event, e.Possible n → ¬ ReaderInSequence remoteAddr remotePort n e →
          ¬ e.Returns Reader.operation remoteAddr remotePort n) ∧
      ∀ n, (uploadProtocol remoteAddr remotePort filename file).Reachable n →
        ∀ e : Event, e.Possible n → ¬ WriterInSequence remoteAddr remotePort n e →
          ¬ e.Returns Writer.operation remoteAddr remotePort n := by
  refine ⟨?_, ?_, ?_, ?_⟩
  · exact neverAborts_of_returns fun n hn e he => (reader_returns_iff hremote hn he).mpr
  · exact neverAborts_of_returns fun n hn e he => (writer_returns_iff hremote hfile hn he).mpr
  · exact fun n hn e he => mt (reader_returns_iff hremote hn he).mp
  · exact fun n hn e he => mt (writer_returns_iff hremote hfile hn he).mp

/-- Transfers of a file of three bytes. -/
theorem transfers_never_abort_three :
    NeverAborts (readProtocol 0xc0a80a02 49152 nameA) Reader.operation
        0xc0a80a02 49152 (ReaderInSequence 0xc0a80a02 49152) ∧
      NeverAborts (uploadProtocol 0xc0a80a02 49152 nameA [1, 2, 3]) Writer.operation
        0xc0a80a02 49152 (WriterInSequence 0xc0a80a02 49152) :=
  have h := transfers_never_abort 0xc0a80a02 49152 nameA [1, 2, 3] (by decide)
    (by decide)
  ⟨h.1, h.2.1⟩

/-- **A block that arrives twice** ends the server: the session is closed with
its last block, and the second copy finds none. -/
theorem not_transfers_never_abort : ¬ ∀ (remoteAddr : Ipv4Address) (remotePort : ℕ)
    (filename : CString) (file : List UInt8), remoteAddr ≠ inaddrBroadcast →
      LegalSize file.length →
      NeverAborts (readProtocol remoteAddr remotePort filename) Reader.operation
          remoteAddr remotePort (fun _ _ => True) ∧
        NeverAborts (uploadProtocol remoteAddr remotePort filename file) Writer.operation
          remoteAddr remotePort (fun _ _ => True) := by
  intro hall
  obtain ⟨s, hreach, hsessions, hdone, -⟩ := sentBlock_reachable
  have hnot : ¬ (Event.toServer ⟨[], true⟩ (putData 1 [1, 2, 3])).Returns Writer.operation 0xc0a80a02 49152
      ⟨sentBlock, s, [putData 1 [1, 2, 3], putRequest .wrq nameA], [putAck 1, putAck 0]⟩ := by
    intro hreturns
    obtain ⟨y, hfind, -⟩ := (Server.data_returns (by decide) (by decide)).mp hreturns
    have hmem := (Server.find_eq_some hfind).1
    change y ∈ s.sessions_ at hmem
    rw [hsessions] at hmem
    exact absurd hmem List.not_mem_nil
  have hpossible : (Event.toServer ⟨[], true⟩ (putData 1 [1, 2, 3])).Possible
      ⟨sentBlock, s, [putData 1 [1, 2, 3], putRequest .wrq nameA], [putAck 1, putAck 0]⟩ :=
    ⟨hdone, List.mem_cons_self⟩
  have hnever := (hall 0xc0a80a02 49152 nameA [1, 2, 3] (by decide) (by decide)).2
  exact not_neverAborts hreach hpossible trivial hnot hnever

end Attos.Net.Tftp
