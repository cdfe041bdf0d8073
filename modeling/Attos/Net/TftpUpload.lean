import Attos.Lib.Network
import Attos.Net.TftpClient
import Attos.Net.TftpServer

/-!
# Uploads

One writer against the server, over a network that loses, duplicates, delays
and reorders packets. Other clients use the server at the same time, and files
come and go.

An acknowledgment of the last block is sent only for a session that has received
the whole file, so a writer that has seen one is right to be done
(`uploadContract`). But the number for no acknowledgment is also the number of
the last block of the largest legal file: there the writer is done before it
starts (`upload_agreement_iff`).
-/

namespace Attos.Net.Tftp

open Lib

/-- The writer and the server. -/
def uploadProtocol (remoteAddr : Ipv4Address) (remotePort : ℕ) (filename : CString)
    (file : List UInt8) : Protocol (Client Writer) Server (List UInt8) where
  clientInit c out := Writer.construct filename file = .done (c, out)
  serverInit s :=
    s.done = false ∧ (∀ x ∈ s.sessions_, ¬ x.IsFrom remoteAddr remotePort) ∧ s.finished = []
  clientReceive c p c' out := Writer.operation.tftpIn c p = .done (c', out)
  clientAct c c' out := ∃ r, Writer.operation.tick c = .done (r, c', out)
  serverReceive s p s' out := s.Receives remoteAddr remotePort p s' out
  serverAct s s' :=
    s.ReceivesOther remoteAddr remotePort s' ∨ ∃ files, s' = { s with files := files }

/-- The server has received all blocks of the file, in order, and they are the
file. -/
def Received (remoteAddr : Ipv4Address) (remotePort : ℕ) (file : List UInt8) (s : Server) : Prop :=
  ∃ x ∈ s.finished, x.IsFrom remoteAddr remotePort ∧
    x.received = List.range' 1 (blockCount file.length) ∧ x.data_ = file

/-- A session that has received the first `j` blocks. -/
structure HasBlocks (file : List UInt8) (x : Session) (j : ℕ) : Prop where
  /-- it is for writing -/
  isRead : x.isRead_ = false
  /-- some blocks are missing -/
  lt : j < file.length / 512 + 1
  /-- it has the start of the file -/
  data : x.data_ = file.take (blockSize * j)
  /-- from the first blocks -/
  received : x.received = List.range' 1 j

variable {remoteAddr : Ipv4Address} {remotePort : ℕ} {filename : CString} {file : List UInt8}

/-- **The next block** is the only one that a session takes. -/
theorem HasBlocks.gotData {x y : Session} {j k size expected : ℕ} {data : List UInt8}
    (h : HasBlocks file x j) (hfile : LegalSize file.length)
    (hrun : x.gotData k data size = .done (expected, y)) :
    k = j + 1 ∧ y.data_ = file.take (blockSize * j) ++ data.take size ∧
      y.received = List.range' 1 (j + 1) ∧ y.isRead_ = false ∧
      ∀ a p, y.IsFrom a p ↔ x.IsFrom a p := by
  obtain ⟨hread, hk, -, -, rfl⟩ := Session.gotData_eq_done hrun
  have hlength : x.data_.length = 512 * j := by
    have hlt := h.lt
    rw [h.data, List.length_take, blockSize]
    omega
  have hk' : k = j + 1 := by
    have hlt := h.lt
    rw [LegalSize, blockSize] at hfile
    rw [hk, hlength, u16]
    omega
  refine ⟨hk', ?_, ?_, hread, fun _ _ => Iff.rfl⟩
  · rw [← h.data]
  · rw [List.range'_concat, ← h.received, hk', Nat.one_mul, Nat.add_comm 1 j]

/-! ## The writer -/

/-- A packet of an upload. -/
def UploadPacket (filename : CString) (file p : List UInt8) : Prop :=
  p = putRequest .wrq filename ∨
    ∃ k, 1 ≤ k ∧ k ≤ file.length / 512 + 1 ∧ p = putData k (block file k)

/-- The writer writes this file. -/
structure Writes (filename : CString) (file : List UInt8) (w : Writer) : Prop where
  /-- under this name -/
  filename_ : w.filename_ = filename
  /-- all of it -/
  data : w.data_ = file
  /-- and counts the blocks that were acknowledged -/
  lastAck : w.lastAck_ = Writer.noAcks ∨ w.lastAck_ ≤ file.length / 512 + 1

section Writer

variable {c c' : Client Writer} {out : List (List UInt8)}

/-- The writer starts with a request. -/
theorem Writes.construct (h : Writer.construct filename file = .done (c, out)) :
    Writes filename file c.op ∧ c.op.lastAck_ = Writer.noAcks ∧ LegalSize file.length ∧
      ∀ p ∈ out, UploadPacket filename file p := by
  rw [Writer.construct] at h
  obtain ⟨-, h⟩ := Outcome.require_bind_eq_done.mp h
  obtain ⟨hfile, h⟩ := Outcome.require_bind_eq_done.mp h
  cases h
  exact ⟨⟨rfl, rfl, .inl rfl⟩, rfl, hfile, fun p hp => .inl (List.mem_singleton.mp hp)⟩

/-- It records the acknowledgments it receives, and sends blocks. -/
theorem Writes.tftpIn {p : List UInt8} (hc : Writes filename file c.op)
    (hfile : LegalSize file.length) (h : Writer.operation.tftpIn c p = .done (c', out)) :
    Writes filename file c'.op ∧ IsAck p c'.op.lastAck_ ∧
      ∀ q ∈ out, UploadPacket filename file q := by
  obtain ⟨opcode, data, hop, hhandled⟩ := Operation.tftpIn_eq_done h
  obtain ⟨rfl, k, rest, hk, hle, hc', hout⟩ :=
    Writer.onPacket_eq_done (by rw [hc.data]; exact hfile) hhandled
  rw [Writer.blockCount, hc.data, blockCount_eq hfile] at hle
  rw [hc.data] at hout
  rw [hc']
  exact ⟨⟨hc.filename_, hc.data, .inr hle⟩, ⟨data, rest, hop, hk⟩, fun q hq => .inr (hout q hq)⟩

/-- A tick does not change what it writes. -/
theorem Writes.tick {r : Result} (hc : Writes filename file c.op) (hfile : LegalSize file.length)
    (h : Writer.operation.tick c = .done (r, c', out)) :
    c'.op = c.op ∧ ∀ q ∈ out, UploadPacket filename file q := by
  rcases Operation.tick_eq_done h with ⟨hop, rfl⟩ | htimeout
  · exact ⟨hop, fun p hp => absurd hp List.not_mem_nil⟩
  · obtain ⟨hop, hout⟩ := Writer.onTimeout_eq_done (by rw [hc.data]; exact hfile) htimeout
    rw [hc.data, hc.filename_] at hout
    exact ⟨hop, hout⟩

end Writer

/-! ## The server -/

/-- The sessions of the client have the first blocks of the file. -/
def Uploading (remoteAddr : Ipv4Address) (remotePort : ℕ) (file : List UInt8) (s : Server) : Prop :=
  ∀ x ∈ s.sessions_, x.IsFrom remoteAddr remotePort → ∃ j, HasBlocks file x j

/-- What the server answers: an error, or an acknowledgment with maybe an error
behind it. -/
def UploadAnswer (file p : List UInt8) : Prop :=
  (∃ ec msg, p = putErrorReply ec msg) ∨
    ∃ k rest, k ≤ file.length / 512 + 1 ∧ rest.length ≤ 512 ∧ p = putAck k ++ rest

section Receive

variable {s s' : Server} {host : Host} {answer : List UInt8}

/-- A write request starts a session without blocks. -/
theorem Uploading.request (hs : Uploading remoteAddr remotePort file s)
    (hrun : s.packetIn host remoteAddr remotePort (putRequest .wrq filename) = .done (s', answer)) :
    Uploading remoteAddr remotePort file s' ∧ s'.finished = s.finished ∧
      ((∃ ec msg, answer = putErrorReply ec msg) ∨ answer = putAck 0) := by
  have hop := @getOpcode_putRequest .wrq (by simp) filename
  obtain ⟨name, rest', -, ⟨rfl, herror⟩ | ⟨hread, -⟩ | ⟨-, rfl, rfl⟩⟩ :=
    Server.request_eq_done (Server.packetIn_eq hop hrun)
  · exact ⟨fun x hx => hs x (Server.mem_erase hx), rfl, .inl herror⟩
  · cases hread
  · refine ⟨fun x hx hfrom => ?_, rfl, .inr rfl⟩
    rcases Server.mem_push.mp hx with hx | rfl
    · exact hs x (Server.mem_erase hx) hfrom
    · exact ⟨0, rfl, Nat.succ_pos _, by simp, rfl⟩

/-- A block that is taken is the next one, and the last one completes the
file. -/
theorem Uploading.data {k : ℕ} (hs : Uploading remoteAddr remotePort file s)
    (hfile : LegalSize file.length) (hk : 1 ≤ k) (hk' : k ≤ file.length / 512 + 1)
    (hrun : s.packetIn host remoteAddr remotePort (putData k (block file k)) =
      .done (s', answer)) :
    Uploading remoteAddr remotePort file s' ∧
      (∃ rest, rest.length ≤ 512 ∧ answer = putAck k ++ rest) ∧
      (k = file.length / 512 + 1 → Received remoteAddr remotePort file s') ∧
      ∀ x ∈ s'.finished, x ∈ s.finished ∨ x.data_ = file := by
  have hlt : k < 2 ^ 16 := by
    rw [LegalSize, blockSize] at hfile
    omega
  have hop : getOpcode (putData k (block file k)) = .done (.data, put16 k ++ block file k) := by
    rw [putData, List.append_assoc, getOpcode_putOpcode (by simp)]
  obtain ⟨k', payload, x, y, hnum, hfind, hgot, -, hcases⟩ :=
    Server.dataIn_eq_done (Server.packetIn_eq hop hrun)
  rw [getU16_put16 hlt] at hnum
  cases hnum
  obtain ⟨hx, hfrom⟩ := Server.find_eq_some hfind
  obtain ⟨j, hj⟩ := hs x hx hfrom
  obtain ⟨rfl, hdata, hreceived, hread, hfrom'⟩ := hj.gotData hfile hgot
  have hshort := length_block_lt_iff hk hk'
  have htake : (block file (j + 1)).take (u16 (block file (j + 1)).length) = block file (j + 1) := by
    apply List.take_of_length_le
    have hle := length_block file (j + 1)
    rw [u16_of_lt (by omega)]
  rw [htake, take_append_block] at hdata
  rcases hcases with ⟨hlast, hsessions, hfinished, hanswer⟩ | ⟨hfull, rfl, rfl⟩
  · rw [hshort] at hlast
    have hwhole : y.data_ = file := by rw [hdata, hlast, take_last]
    refine ⟨fun z hz => hs z (Server.mem_erase (hsessions ▸ hz)), hanswer,
      fun _ => ⟨y, ?_, ?_, ?_, hwhole⟩, fun z hz => ?_⟩
    · rw [hfinished]
      exact List.mem_cons_self
    · exact (hfrom' _ _).mpr hfrom
    · rw [hreceived, hlast, blockCount_eq hfile]
    · rw [hfinished, List.mem_cons] at hz
      rcases hz with rfl | hz
      · exact .inr hwhole
      · exact .inl hz
  · have hne : j + 1 ≠ file.length / 512 + 1 := fun h => absurd (hshort.mpr h) (not_lt.mpr hfull)
    refine ⟨fun z hz hzfrom => ?_, ⟨[], by simp, by simp⟩, fun hlast => absurd hlast hne,
      fun z hz => .inl hz⟩
    rcases Server.mem_update hz with hz | rfl
    · exact hs z hz hzfrom
    · exact ⟨j + 1, hread, by omega, hdata, hreceived⟩

/-- **A packet of the upload** is answered, and leaves the sessions with first
blocks of the file. -/
theorem Uploading.receive {p : List UInt8} (hs : Uploading remoteAddr remotePort file s)
    (hfile : LegalSize file.length) (hp : UploadPacket filename file p)
    (hrun : s.packetIn host remoteAddr remotePort p = .done (s', answer)) :
    Uploading remoteAddr remotePort file s' ∧ UploadAnswer file answer ∧
      (IsAck answer (file.length / 512 + 1) → Received remoteAddr remotePort file s') ∧
      ∀ x ∈ s'.finished, x ∈ s.finished ∨ x.data_ = file := by
  rcases hp with rfl | ⟨k, hk, hk', rfl⟩
  · obtain ⟨hs', hfinished, hanswer⟩ := Uploading.request hs hrun
    refine ⟨hs', ?_, fun hack => ?_, fun x hx => .inl (hfinished ▸ hx)⟩
    · exact hanswer.imp_right fun h => ⟨0, [], Nat.zero_le _, by simp, by simp [h]⟩
    · -- neither an error nor the first acknowledgment is one of the last block
      exfalso
      rcases hanswer with ⟨ec, msg, rfl⟩ | rfl
      · obtain ⟨data, data', hack, -⟩ := hack
        obtain ⟨rest, herror⟩ := getOpcode_putErrorReply ec msg
        rw [herror] at hack
        cases hack
      · rw [← List.append_nil (putAck 0)] at hack
        have hzero := isAck_putAck (by decide) hack
        omega
  · have hlt : k < 2 ^ 16 := by
      rw [LegalSize, blockSize] at hfile
      omega
    obtain ⟨hs', ⟨rest, hrest, rfl⟩, hlast, hfinished⟩ := Uploading.data hs hfile hk hk' hrun
    refine ⟨hs', .inr ⟨k, rest, hk', hrest, rfl⟩, fun hack => ?_, hfinished⟩
    apply hlast
    exact (isAck_putAck hlt hack).symm

/-- A completed upload stays completed. -/
theorem Received.mono (h : ∀ x ∈ s.finished, x ∈ s'.finished)
    (hs : Received remoteAddr remotePort file s) : Received remoteAddr remotePort file s' := by
  obtain ⟨x, hx, hrec⟩ := hs
  exact ⟨x, h x hx, hrec⟩

end Receive

/-! ## Runs -/

/-- What holds of every upload: the packets are the request and blocks of the
file, sessions have its first blocks, and those that are closed have all of
them. -/
def prefixContract (hfile : LegalSize file.length) :
    Contract (uploadProtocol remoteAddr remotePort filename file) where
  server s := Uploading remoteAddr remotePort file s ∧
    ∀ x ∈ s.finished, x.IsFrom remoteAddr remotePort → x.data_ = file
  client _ c := Writes filename file c.op
  toServer p := UploadPacket filename file p
  toClient _ p := UploadAnswer file p
  server_init s hs := by
    obtain ⟨-, hsessions, hfinished⟩ := hs
    refine ⟨fun x hx hfrom => absurd hfrom (hsessions x hx), fun x hx => ?_⟩
    rw [hfinished] at hx
    exact absurd hx List.not_mem_nil
  client_init s c out _ hc := by
    obtain ⟨hwrites, -, -, hout⟩ := Writes.construct hc
    exact ⟨hwrites, hout⟩
  client_receive s c p c' out hc _ hrun := by
    obtain ⟨hwrites, -, hout⟩ := hc.tftpIn hfile hrun
    exact ⟨hwrites, hout⟩
  client_act s c c' out hc hrun := by
    obtain ⟨r, hrun⟩ := hrun
    obtain ⟨hop, hout⟩ := hc.tick hfile hrun
    exact ⟨hop ▸ hc, hout⟩
  server_receive s p s' out hs hp hrun := by
    obtain ⟨-, host, answer, hrun, rfl⟩ := hrun
    obtain ⟨hs', hanswer, -, hfinished⟩ := hs.1.receive hfile hp hrun
    refine ⟨⟨hs', fun x hx hfrom => ?_⟩, fun q hq => ?_, fun c hc => hc, fun q hq => hq⟩
    · exact (hfinished x hx).elim (fun hx => hs.2 x hx hfrom) id
    · split_ifs at hq with hempty
      · exact absurd hq List.not_mem_nil
      · rw [List.mem_singleton.mp hq]
        exact hanswer
  server_act s s' hs hrun := by
    refine ⟨?_, fun c hc => hc, fun p hp => hp⟩
    rcases hrun with hother | ⟨files, rfl⟩
    · obtain ⟨hsessions, -, -⟩ := hother.frame
      exact ⟨fun x hx hfrom => hs.1 x (hsessions x hx hfrom) hfrom,
        fun x hx hfrom => hs.2 x (hother.finished x hx hfrom) hfrom⟩
    · exact hs

/-- Only the largest file has as many blocks as the number for no acknowledgment says. -/
theorem noAcks_ne (hfile : LegalSize file.length) (hne : file.length ≠ 33553408) :
    Writer.noAcks ≠ file.length / 512 + 1 := by
  rw [LegalSize, blockSize] at hfile
  rw [Writer.noAcks]
  omega

/-- What holds of an upload of a file that is not the largest: the last block is
acknowledged only when the file was received. -/
def uploadContract (hfile : LegalSize file.length) (hne : file.length ≠ 33553408) :
    Contract (uploadProtocol remoteAddr remotePort filename file) where
  server s := Uploading remoteAddr remotePort file s
  client s c := Writes filename file c.op ∧
    (c.op.lastAck_ = file.length / 512 + 1 → Received remoteAddr remotePort file s)
  toServer p := UploadPacket filename file p
  toClient s p := IsAck p (file.length / 512 + 1) → Received remoteAddr remotePort file s
  server_init s hs x hx hfrom := absurd hfrom (hs.2.1 x hx)
  client_init s c out _ hc := by
    obtain ⟨hwrites, hno, -, hout⟩ := Writes.construct hc
    exact ⟨⟨hwrites, fun hack => absurd (hno.symm.trans hack) (noAcks_ne hfile hne)⟩, hout⟩
  client_receive s c p c' out hc hp hrun := by
    obtain ⟨hwrites, hack, hout⟩ := hc.1.tftpIn hfile hrun
    refine ⟨⟨hwrites, fun hlast => ?_⟩, hout⟩
    rw [hlast] at hack
    exact hp hack
  client_act s c c' out hc hrun := by
    obtain ⟨r, hrun⟩ := hrun
    obtain ⟨hop, hout⟩ := hc.1.tick hfile hrun
    exact ⟨hop ▸ hc, hout⟩
  server_receive s p s' out hs hp hrun := by
    obtain ⟨-, host, answer, hrun, rfl⟩ := hrun
    obtain ⟨hs', -, hlast, -⟩ := hs.receive hfile hp hrun
    have hmono := @Received.mono remoteAddr remotePort file s s' (Server.packetIn_frame hrun).2.1
    refine ⟨hs', fun q hq => ?_, fun c hc => ⟨hc.1, fun hack => hmono (hc.2 hack)⟩,
      fun q hq hack => hmono (hq hack)⟩
    split_ifs at hq with hempty
    · exact absurd hq List.not_mem_nil
    · rw [List.mem_singleton.mp hq]
      exact hlast
  server_act s s' hs hrun := by
    rcases hrun with hother | ⟨files, rfl⟩
    · obtain ⟨hsessions, hfinished, -⟩ := hother.frame
      have hmono := @Received.mono remoteAddr remotePort file s s' hfinished
      exact ⟨fun x hx hfrom => hs x (hsessions x hx hfrom) hfrom,
        fun c hc => ⟨hc.1, fun hack => hmono (hc.2 hack)⟩, fun p hp hack => hmono (hp hack)⟩
    · exact ⟨hs, fun c hc => hc, fun p hp => hp⟩

/-- A writer of the largest legal file is done when nothing was received. -/
theorem largest_finishes (remoteAddr : Ipv4Address) (remotePort : ℕ)
    (hname : filename.chars.length < 64) (hlength : file.length = 33553408) :
    ∃ n, (uploadProtocol remoteAddr remotePort filename file).Reachable n ∧
      Writer.operation.Finishes n.client ∧ ¬ Received remoteAddr remotePort file n.server := by
  have hfile : LegalSize file.length := hlength ▸ (by decide)
  have hblocks : blockCount file.length = Writer.noAcks := by
    rw [blockCount_eq hfile, hlength]
    rfl
  have hinit : (uploadProtocol remoteAddr remotePort filename file).Init
      ⟨⟨⟨filename, file, Writer.noAcks⟩, defaultTimeout⟩, ⟨[], fun _ => none, false, []⟩,
        [putRequest .wrq filename], []⟩ := by
    refine ⟨?_, ⟨rfl, fun x hx => absurd hx List.not_mem_nil, rfl⟩, rfl⟩
    simp [uploadProtocol, Writer.construct, hname, hfile, Writer.sendWrq]
  refine ⟨_, .start hinit, Operation.finishes_iff.mpr ?_, ?_⟩
  · simp [Writer.operation, Writer.isDone, Writer.blockCount, hblocks]
  · rintro ⟨x, hx, -⟩
    exact absurd hx List.not_mem_nil

/-- **Uploads agree, but for the largest file.** For a file of legal size, the
server has received the whole file whenever the writer is done, in every run, if
and only if the file does not have the largest legal size. -/
theorem upload_agreement_iff (remoteAddr : Ipv4Address) (remotePort : ℕ) (filename : CString)
    (file : List UInt8) (hname : filename.chars.length < 64) (hfile : LegalSize file.length) :
    (∀ n, (uploadProtocol remoteAddr remotePort filename file).Reachable n →
      Writer.operation.Finishes n.client → Received remoteAddr remotePort file n.server) ↔
      file.length ≠ 33553408 := by
  constructor
  · intro h hlength
    obtain ⟨n, hn, hdone, hnot⟩ := largest_finishes remoteAddr remotePort hname hlength
    exact hnot (h n hn hdone)
  · intro hne n hn hdone
    have hholds := (uploadContract hfile hne).holds hn
    apply hholds.client.2
    have hlast := Operation.finishes_iff.mp hdone
    simpa [Writer.operation, Writer.isDone, Writer.blockCount, hholds.client.1.data,
      blockCount_eq hfile] using hlast

/-- An upload of three bytes. -/
theorem upload_agreement_iff_three :
    (∀ n, (uploadProtocol 0xc0a80a02 49152 ⟨ascii "a", by decide⟩ [1, 2, 3]).Reachable n →
      Writer.operation.Finishes n.client → Received 0xc0a80a02 49152 [1, 2, 3] n.server) ↔
      [1, 2, 3].length ≠ 33553408 :=
  upload_agreement_iff _ _ _ _ (by decide) (by decide)

/-- A file of 33553408 zeros. -/
theorem not_upload_agreement : ¬ ∀ (remoteAddr : Ipv4Address) (remotePort : ℕ) (filename : CString)
    (file : List UInt8), LegalSize file.length →
      ∀ n, (uploadProtocol remoteAddr remotePort filename file).Reachable n →
        Writer.operation.Finishes n.client → Received remoteAddr remotePort file n.server := by
  intro h
  have hlength : (List.replicate 33553408 (0 : UInt8)).length = 33553408 := List.length_replicate
  obtain ⟨n, hn, hdone, hnot⟩ := @largest_finishes ⟨ascii "a", by decide⟩ _ 0xc0a80a02 49152
    (by decide) hlength
  exact hnot (h _ _ _ _ (by rw [hlength]; decide) n hn hdone)

/-- **What a session has received.** In every run, the sessions of the writer
have the first blocks of its file, or all of it, those closed as complete have
all of it, and the number of the next block does not wrap. -/
theorem upload_prefix (remoteAddr : Ipv4Address) (remotePort : ℕ) (filename : CString)
    (file : List UInt8) (hfile : LegalSize file.length)
    {n : Network (Client Writer) Server (List UInt8)}
    (hn : (uploadProtocol remoteAddr remotePort filename file).Reachable n) :
    (∀ x ∈ n.server.sessions_, x.IsFrom remoteAddr remotePort →
      x.data_ <+: file ∧ (512 ∣ x.data_.length ∨ x.data_ = file)) ∧
    (∀ x ∈ n.server.finished, x.IsFrom remoteAddr remotePort → x.data_ = file) ∧
    ∀ x ∈ n.server.sessions_ ++ n.server.finished, x.IsFrom remoteAddr remotePort →
      1 + x.data_.length / blockSize < 2 ^ 16 := by
  obtain ⟨hsessions, hfinished⟩ := ((prefixContract hfile).holds hn).server
  refine ⟨fun x hx hfrom => ?_, hfinished, fun x hx hfrom => ?_⟩
  · obtain ⟨j, hj⟩ := hsessions x hx hfrom
    rw [hj.data]
    refine ⟨List.take_prefix _ _, .inl ?_⟩
    have hlt := hj.lt
    rw [List.length_take, blockSize, min_eq_left (by omega)]
    exact Nat.dvd_mul_right _ _
  · -- what was received is not longer than the file
    have hle : x.data_.length ≤ file.length := by
      rcases List.mem_append.mp hx with hx | hx
      · obtain ⟨j, hj⟩ := hsessions x hx hfrom
        rw [hj.data, List.length_take]
        exact min_le_right _ _
      · rw [hfinished x hx hfrom]
    rw [LegalSize] at hfile
    rw [blockSize] at hfile ⊢
    omega

/-! ## An upload of three bytes -/

/-- The name `a`. -/
def nameA : CString := ⟨ascii "a", by decide⟩

/-- A writer of three bytes, which has sent its block. -/
def sentBlock : Client Writer := ⟨⟨nameA, [1, 2, 3], 0⟩, defaultTimeout⟩

/-- A server without files and sessions. -/
def emptyServer : Server := ⟨[], fun _ => none, false, []⟩

/-- The session of the writer, before its block. -/
def openSession : Session := ⟨0xc0a80a02, 49152, nameA.chars, false, [], []⟩

set_option maxRecDepth 4000 in
/-- The first acknowledgment is answered with the block. -/
theorem sentBlock_eq : Writer.operation.tftpIn
    ⟨⟨nameA, [1, 2, 3], Writer.noAcks⟩, defaultTimeout⟩ (putAck 0) =
      .done (sentBlock, [putData 1 [1, 2, 3]]) := rfl

set_option maxRecDepth 4000 in
/-- The block closes the session. -/
theorem openSession_closed : ∃ s, (emptyServer.push openSession).packetIn ⟨[], true⟩ 0xc0a80a02 49152
    (putData 1 [1, 2, 3]) = .done (s, putAck 1) ∧ s.sessions_ = [] ∧ s.done = false ∧
      s.finished.length = 1 :=
  ⟨_, rfl, rfl, rfl, rfl⟩

set_option maxRecDepth 4000 in
/-- The request, its acknowledgment, the block, and the acknowledgment that the
writer has yet to receive. -/
theorem sentBlock_reachable : ∃ s,
    (uploadProtocol 0xc0a80a02 49152 nameA [1, 2, 3]).Reachable
      ⟨sentBlock, s, [putData 1 [1, 2, 3], putRequest .wrq nameA], [putAck 1, putAck 0]⟩ ∧
      s.sessions_ = [] ∧ s.done = false ∧ s.finished.length = 1 := by
  let P := uploadProtocol 0xc0a80a02 49152 nameA [1, 2, 3]
  let c₀ : Client Writer := ⟨⟨nameA, [1, 2, 3], Writer.noAcks⟩, defaultTimeout⟩
  let wrq := putRequest .wrq nameA
  let data := putData 1 [1, 2, 3]
  have h₀ : P.Reachable ⟨c₀, emptyServer, [wrq], []⟩ :=
    .start ⟨rfl, ⟨rfl, fun x hx => absurd hx List.not_mem_nil, rfl⟩, rfl⟩
  have hrequest : emptyServer.Receives 0xc0a80a02 49152 wrq (emptyServer.push openSession)
      [putAck 0] := ⟨rfl, ⟨[], true⟩, putAck 0, rfl, rfl⟩
  have h₁ : P.Reachable ⟨c₀, emptyServer.push openSession, [wrq], [putAck 0]⟩ :=
    h₀.step (@Protocol.Step.serverReceive _ _ _ P _ _ _ [_] (List.mem_singleton_self _) hrequest)
  have h₂ : P.Reachable ⟨sentBlock, emptyServer.push openSession, [data, wrq], [putAck 0]⟩ :=
    h₁.step (@Protocol.Step.clientReceive _ _ _ P _ _ _ [_] (List.mem_singleton_self _)
      sentBlock_eq)
  obtain ⟨s, hblock, hs⟩ := openSession_closed
  have h₃ : P.Reachable ⟨sentBlock, s, [data, wrq], [putAck 1, putAck 0]⟩ :=
    h₂.step (@Protocol.Step.serverReceive _ _ _ P _ _ _ [_] List.mem_cons_self
      ⟨rfl, ⟨[], true⟩, putAck 1, hblock, rfl⟩)
  exact ⟨s, h₃, hs⟩

/-- The session of an upload of three bytes. -/
theorem upload_prefix_three : ∃ s : Server, s.finished.length = 1 ∧
    (∀ x ∈ s.sessions_, x.IsFrom 0xc0a80a02 49152 →
      x.data_ <+: [1, 2, 3] ∧ (512 ∣ x.data_.length ∨ x.data_ = [1, 2, 3])) ∧
    (∀ x ∈ s.finished, x.IsFrom 0xc0a80a02 49152 → x.data_ = [1, 2, 3]) ∧
    ∀ x ∈ s.sessions_ ++ s.finished, x.IsFrom 0xc0a80a02 49152 →
      1 + x.data_.length / blockSize < 2 ^ 16 := by
  obtain ⟨s, hreach, -, -, hfinished⟩ := sentBlock_reachable
  exact ⟨s, hfinished, upload_prefix 0xc0a80a02 49152 nameA [1, 2, 3] (by decide) hreach⟩

end Attos.Net.Tftp
