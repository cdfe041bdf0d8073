import Attos.Lib.Network
import Attos.Net.TftpClient
import Attos.Net.TftpServer

/-!
# Downloads

One reader against the server, over a network that loses, duplicates, delays and
reorders packets. Other clients use the server at the same time; it does not
overwrite files that exist, so the file stays what it is.

Every session that a request of the reader starts reads the same file, so every
data packet to the reader is a block of it, and the reader takes blocks in order
only (`downloadContract`, `download_agreement`).
-/

namespace Attos.Net.Tftp

open Lib

/-- The reader and the server, which has the file. -/
def downloadProtocol (remoteAddr : Ipv4Address) (remotePort : ℕ) (filename : CString)
    (file : List UInt8) : Protocol (Client Reader) Server (List UInt8) where
  clientInit c out := Reader.construct filename = .done (c, out)
  serverInit s :=
    s.done = false ∧ (∀ x ∈ s.sessions_, ¬ x.IsFrom remoteAddr remotePort) ∧
      s.files filename.chars = some file
  clientReceive c p c' out := Reader.operation.tftpIn c p = .done (c', out)
  clientAct c c' out := ∃ r, Reader.operation.tick c = .done (r, c', out)
  serverReceive s p s' out := s.Receives remoteAddr remotePort p s' out
  serverAct s s' :=
    s.ReceivesOther remoteAddr remotePort s' ∨
      ∃ files, files filename.chars = some file ∧ s' = { s with files := files }

variable {remoteAddr : Ipv4Address} {remotePort : ℕ} {filename : CString} {file : List UInt8}

/-- The server has the file, and the sessions of the client read it. -/
structure Downloading (remoteAddr : Ipv4Address) (remotePort : ℕ) (filename : CString)
    (file : List UInt8) (s : Server) : Prop where
  /-- the server has the file -/
  files : s.files filename.chars = some file
  /-- the sessions read it -/
  sessions : ∀ x ∈ s.sessions_, x.IsFrom remoteAddr remotePort → x.data_ = file

/-- The packet is a block of the file if it is a data packet. -/
def BlockOf (file p : List UInt8) : Prop :=
  ∀ k data, IsData p k data → 1 ≤ k ∧ k ≤ file.length / 512 + 1 ∧ data = block file k

/-- The reader has the first blocks of the file, and all of it when it is
done. -/
structure HasRead (filename : CString) (file : List UInt8) (r : Reader) : Prop where
  /-- it reads the file -/
  filename_ : r.filename_ = filename
  /-- it has the first blocks -/
  data : r.data_ = file.take (blockSize * r.lastBlock_)
  /-- all of them when it is done -/
  last : r.done_ = true → r.lastBlock_ = file.length / 512 + 1

theorem blockOf_putData {k : ℕ} (hfile : LegalSize file.length) (hk : 1 ≤ k)
    (hk' : k ≤ file.length / 512 + 1) : BlockOf file (putData k (block file k)) := by
  intro k' data hdata
  have hlt : k < 2 ^ 16 := by
    rw [LegalSize, blockSize] at hfile
    omega
  obtain ⟨rfl, rfl⟩ := isData_putData hlt hdata
  exact ⟨hk, hk', rfl⟩

theorem blockOf_of_opcode {p rest : List UInt8} {opcode : Opcode} (hne : opcode ≠ .data)
    (hop : getOpcode p = .done (opcode, rest)) : BlockOf file p := by
  rintro k data ⟨rest', hdata, -⟩
  rw [hop] at hdata
  cases hdata
  exact absurd rfl hne

section Receive

variable {s s' : Server} {host : Host} {answer : List UInt8}

/-- **A read request** starts a session for the file and sends its first
block. -/
theorem Downloading.request (hs : Downloading remoteAddr remotePort filename file s)
    (hrun : s.packetIn host remoteAddr remotePort (putRequest .rrq filename) = .done (s', answer)) :
    Downloading remoteAddr remotePort filename file s' ∧ BlockOf file answer := by
  have hop := @getOpcode_putRequest .rrq (by simp) filename
  obtain ⟨name, rest, hname, hcases⟩ := Server.request_eq_done (Server.packetIn_eq hop hrun)
  rw [getString_putString filename.nonzero] at hname
  cases hname
  rcases hcases with ⟨rfl, ec, msg, rfl⟩ | ⟨-, file', hfile', hlegal, rfl, hput⟩ | ⟨hread, -⟩
  · obtain ⟨rest, herror⟩ := getOpcode_putErrorReply ec msg
    exact ⟨⟨hs.files, fun x hx => hs.sessions x (Server.mem_erase hx)⟩,
      blockOf_of_opcode (by simp) herror⟩
  · obtain rfl : file' = file := Option.some.inj (hfile'.symm.trans hs.files)
    obtain ⟨-, hlo, hhi, rfl⟩ := Session.putBlock_eq_done hlegal hput
    refine ⟨⟨hs.files, fun x hx hfrom => ?_⟩, blockOf_putData hlegal hlo hhi⟩
    rcases Server.mem_push.mp hx with hx | rfl
    · exact hs.sessions x (Server.mem_erase hx) hfrom
    · rfl
  · cases hread

/-- **An acknowledgment** is answered with a block of the file, or not at
all. -/
theorem Downloading.ack {k : ℕ} (hs : Downloading remoteAddr remotePort filename file s)
    (hfile : LegalSize file.length)
    (hrun : s.packetIn host remoteAddr remotePort (putAck k) = .done (s', answer)) :
    Downloading remoteAddr remotePort filename file s' ∧ (answer ≠ [] → BlockOf file answer) := by
  have hop : getOpcode (putAck k) = .done (.ack, put16 k) := getOpcode_putOpcode (by simp) _
  obtain ⟨k', rest, x, -, hfind, ⟨rfl, rfl⟩ | ⟨rfl, hput⟩⟩ :=
    Server.ackIn_eq_done (Server.packetIn_eq hop hrun)
  · exact ⟨⟨hs.files, fun x hx => hs.sessions x (Server.mem_erase hx)⟩, fun h => absurd rfl h⟩
  · obtain ⟨hx, hfrom⟩ := Server.find_eq_some hfind
    have hdata := hs.sessions x hx hfrom
    obtain ⟨-, hlo, hhi, rfl⟩ := Session.putBlock_eq_done (hdata ▸ hfile) hput
    rw [hdata] at hhi ⊢
    exact ⟨hs, fun _ => blockOf_putData hfile hlo hhi⟩

end Receive

/-- **The reader takes the next block**, and is done after the last one. -/
theorem HasRead.onPacket {r r' : Reader} {opcode : Opcode} {p data : List UInt8}
    {packets : List (List UInt8)} (h : HasRead filename file r) (hp : BlockOf file p)
    (hop : getOpcode p = .done (opcode, data))
    (hrun : r.onPacket opcode data = .done (some (r', packets))) :
    HasRead filename file r' ∧ ∀ q ∈ packets, ∃ k, q = putAck k := by
  obtain ⟨rfl, payload, hnum, rfl, rfl⟩ := Reader.onPacket_eq_done hrun
  obtain ⟨hlo, hhi, rfl⟩ := hp _ _ ⟨data, hop, hnum⟩
  refine ⟨⟨h.filename_, ?_, fun hdone => ?_⟩, fun q hq => ⟨_, List.mem_singleton.mp hq⟩⟩
  · dsimp only
    rw [h.data, take_append_block]
  · -- a reader that was done takes no more blocks
    have hnot : r.done_ = false := by
      cases hd : r.done_ with
      | false => rfl
      | true =>
        have hlast := h.last hd
        omega
    have hlen : (block file (r.lastBlock_ + 1)).length ≠ 512 := by
      simpa [hnot, blockSize] using hdone
    have hle := length_block file (r.lastBlock_ + 1)
    exact (length_block_lt_iff hlo hhi).mp (by omega)

/-- What holds of a download. -/
def downloadContract (hfile : LegalSize file.length) :
    Contract (downloadProtocol remoteAddr remotePort filename file) where
  server s := Downloading remoteAddr remotePort filename file s
  client _ c := HasRead filename file c.op
  toServer p := p = putRequest .rrq filename ∨ ∃ k, p = putAck k
  toClient _ p := BlockOf file p
  server_init s hs := ⟨hs.2.2, fun x hx hfrom => absurd hfrom (hs.2.1 x hx)⟩
  client_init s c out _ hc := by
    rw [downloadProtocol, Reader.construct] at hc
    obtain ⟨-, hc⟩ := Outcome.require_bind_eq_done.mp hc
    cases hc
    exact ⟨⟨rfl, rfl, fun h => nomatch h⟩, fun p hp => .inl (List.mem_singleton.mp hp)⟩
  client_receive s c p c' out hc hp hrun := by
    obtain ⟨opcode, data, hop, hhandled⟩ := Operation.tftpIn_eq_done hrun
    obtain ⟨hread, hout⟩ := hc.onPacket hp hop hhandled
    exact ⟨hread, fun q hq => .inr (hout q hq)⟩
  client_act s c c' out hc hrun := by
    obtain ⟨r, hrun⟩ := hrun
    rcases Operation.tick_eq_done hrun with ⟨hop, rfl⟩ | htimeout
    · rw [hop]
      exact ⟨hc, fun p hp => absurd hp List.not_mem_nil⟩
    · -- a timeout starts over
      change c.op.onTimeout = _ at htimeout
      rw [Reader.onTimeout] at htimeout
      split_ifs at htimeout
      simp only [Reader.sendRrq, Outcome.done.injEq, Prod.mk.injEq] at htimeout
      obtain ⟨hop, rfl⟩ := htimeout
      rw [← hop, hc.filename_]
      exact ⟨⟨rfl, rfl, fun h => nomatch h⟩, fun p hp => .inl (List.mem_singleton.mp hp)⟩
  server_receive s p s' out hs hp hrun := by
    obtain ⟨-, host, answer, hrun, rfl⟩ := hrun
    have hkeep : Downloading remoteAddr remotePort filename file s' ∧
        (answer ≠ [] → BlockOf file answer) := by
      rcases hp with rfl | ⟨k, rfl⟩
      · obtain ⟨hs', hblock⟩ := Downloading.request hs hrun
        exact ⟨hs', fun _ => hblock⟩
      · exact Downloading.ack hs hfile hrun
    refine ⟨hkeep.1, fun q hq => ?_, fun c hc => hc, fun q hq => hq⟩
    split_ifs at hq with hempty
    · exact absurd hq List.not_mem_nil
    · rw [List.mem_singleton.mp hq]
      exact hkeep.2 hempty
  server_act s s' hs hrun := by
    refine ⟨?_, fun c hc => hc, fun p hp => hp⟩
    rcases hrun with hother | ⟨files, hfiles, rfl⟩
    · obtain ⟨hsessions, -, hfiles⟩ := hother.frame
      exact ⟨hfiles _ _ hs.files, fun x hx hfrom => hs.sessions x (hsessions x hx hfrom) hfrom⟩
    · exact ⟨hfiles, hs.sessions⟩

/-- **Downloads agree.** For a file of legal size, in every run, what the reader
has is the blocks up to the last one it received, and this is the whole file
when the reader is done. -/
theorem download_agreement (remoteAddr : Ipv4Address) (remotePort : ℕ) (filename : CString)
    (file : List UInt8) (hfile : LegalSize file.length)
    {n : Network (Client Reader) Server (List UInt8)}
    (hn : (downloadProtocol remoteAddr remotePort filename file).Reachable n) :
    n.client.op.data_ = (List.range' 1 n.client.op.lastBlock_).flatMap (block file) ∧
      (Reader.operation.Finishes n.client → n.client.op.data_ = file) := by
  have hread := ((downloadContract hfile).holds hn).client
  refine ⟨by rw [flatMap_block, hread.data], fun hdone => ?_⟩
  rw [hread.data, hread.last (Operation.finishes_iff.mp hdone), take_last]

set_option maxRecDepth 4000 in
/-- The request, the block and its acknowledgment of a file of three bytes. -/
theorem download_agreement_three : ∃ n : Network (Client Reader) Server (List UInt8),
    Reader.operation.Finishes n.client ∧
      n.client.op.data_ = (List.range' 1 n.client.op.lastBlock_).flatMap (block [1, 2, 3]) ∧
      (Reader.operation.Finishes n.client → n.client.op.data_ = [1, 2, 3]) := by
  let filename : CString := ⟨ascii "a", by decide⟩
  let P := downloadProtocol 0xc0a80a02 49152 filename [1, 2, 3]
  let c₀ : Client Reader := ⟨⟨filename, 0, [], false⟩, defaultTimeout⟩
  let s₀ : Server := ⟨[], fun _ => some [1, 2, 3], false, []⟩
  let s₁ : Server := s₀.push ⟨0xc0a80a02, 49152, filename.chars, true, [1, 2, 3], []⟩
  let c₁ : Client Reader := ⟨⟨filename, 1, [1, 2, 3], true⟩, defaultTimeout⟩
  have h₀ : P.Reachable ⟨c₀, s₀, [putRequest .rrq filename], []⟩ :=
    .start ⟨rfl, ⟨rfl, fun x hx => absurd hx List.not_mem_nil, rfl⟩, rfl⟩
  have hsend : s₀.Receives 0xc0a80a02 49152 (putRequest .rrq filename) s₁ [putData 1 [1, 2, 3]] :=
    ⟨rfl, ⟨[], true⟩, putData 1 [1, 2, 3], rfl, rfl⟩
  have h₁ : P.Reachable ⟨c₀, s₁, [putRequest .rrq filename], [putData 1 [1, 2, 3]]⟩ :=
    h₀.step (@Protocol.Step.serverReceive _ _ _ P _ _ s₁ [_] (List.mem_singleton_self _) hsend)
  have htake : Reader.operation.tftpIn c₀ (putData 1 [1, 2, 3]) = .done (c₁, [putAck 1]) := rfl
  have h₂ : P.Reachable ⟨c₁, s₁, [putAck 1, putRequest .rrq filename], [putData 1 [1, 2, 3]]⟩ :=
    h₁.step (@Protocol.Step.clientReceive _ _ _ P _ _ c₁ [_] (List.mem_singleton_self _) htake)
  exact ⟨_, Operation.finishes_iff.mpr rfl, download_agreement _ _ _ _ (by decide) h₂⟩

end Attos.Net.Tftp
