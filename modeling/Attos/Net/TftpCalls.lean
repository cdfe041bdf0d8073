import Attos.Net.OpenSockets
import Attos.Net.TftpClient
import Attos.Net.TftpServer

/-!
# Calls of the TFTP client

The calls of `tftp::read` and `tftp::write` on one device, over a network that loses, duplicates and
delays datagrams. Each call opens a socket with the first free port and closes it before it returns,
so the next call takes the same port again. A datagram is passed to the socket that has its port, and
the receive function is not told who sent it.

What is expected of the calls is `Transfers.Correct`.
-/

namespace Attos.Net.Tftp

open Lib Ipv4EthernetDevice

/-! ## Calls -/

/-- A call of `tftp::read` or `tftp::write`: its arguments, and its `tftp_op`. -/
inductive Call : Type where
  /-- `tftp::read` -/
  | read (filename : CString) (reader : Client Reader) : Call
  /-- `tftp::write` -/
  | write (filename : CString) (data : List UInt8) (writer : Client Writer) : Call

namespace Call

/-- The constructor of the client gives this call, and sends packets. -/
def Construct : Call → List (List UInt8) → Prop
  | read filename reader, packets => Reader.construct filename = .done (reader, packets)
  | write filename data writer, packets => Writer.construct filename data = .done (writer, packets)

/-- `tick` -/
def tick : Call → Outcome (Result × Call × List (List UInt8))
  | read filename reader => do
    let (r, reader, packets) ← Reader.operation.tick reader
    pure (r, read filename reader, packets)
  | write filename data writer => do
    let (r, writer, packets) ← Writer.operation.tick writer
    pure (r, write filename data writer, packets)

/-- `tftp_in` -/
def tftpIn : Call → List UInt8 → Outcome (Call × List (List UInt8))
  | read filename reader, p => do
    let (reader, packets) ← Reader.operation.tftpIn reader p
    pure (read filename reader, packets)
  | write filename data writer, p => do
    let (writer, packets) ← Writer.operation.tftpIn writer p
    pure (write filename data writer, packets)

/-- The call writes a file of the largest legal size. -/
def WritesLargest : Call → Prop
  | read _ _ => False
  | write _ data _ => data.length = 33553408

end Call

/-! ## The server and the network -/

/-- A datagram between the device and the server. -/
structure Datagram : Type where
  /-- number of the transfer it belongs to -/
  transfer : ℕ
  /-- port of the device -/
  port : ℕ
  /-- the packet -/
  data : List UInt8

/-- The server and what is on its way. A datagram of the device belongs to the transfer that sends it,
a session to the transfer whose request started it, and an answer to the transfer of its session.
The program does not look at these numbers. -/
structure Traffic : Type where
  /-- the server -/
  server : Server
  /-- how many transfers were started, which is the number of the last one -/
  started : ℕ
  /-- the datagrams to the server -/
  toServer : List Datagram
  /-- the datagrams to the device -/
  toClient : List Datagram
  /-- the transfer that a session with this port belongs to -/
  owners : ℕ → ℕ
  /-- the sessions that were completed, with the transfers they belong to -/
  completed : List (ℕ × Session)

/-- The packet is a read or write request. -/
def isRequest (p : List UInt8) : Bool :=
  match getOpcode p with
  | .done (.rrq, _) => true
  | .done (.wrq, _) => true
  | _ => false

theorem isRequest_iff {p : List UInt8} : isRequest p = true ↔
    ∃ opcode data, getOpcode p = .done (opcode, data) ∧ (opcode = .rrq ∨ opcode = .wrq) := by
  cases h : getOpcode p with
  | done r =>
    obtain ⟨opcode, data⟩ := r
    cases opcode <;> simp [isRequest, h]
  | abort => simp [isRequest, h]
  | running => simp [isRequest, h]

namespace Traffic

/-- The current transfer sends packets from its port. -/
def send (t : Traffic) (port : ℕ) (packets : List (List UInt8)) : Traffic :=
  { t with toServer := packets.map (fun p => ⟨t.started, port, p⟩) ++ t.toServer }

/-- A request starts a session of its transfer. -/
def ownersAfter (t : Traffic) (d : Datagram) : ℕ → ℕ :=
  if isRequest d.data then Function.update t.owners d.port d.transfer else t.owners

/-- The server has received a datagram: it sends an answer and completes sessions. -/
def answered (t : Traffic) (d : Datagram) (s : Server) (answer : List UInt8) (new : List Session) :
    Traffic :=
  { t with
    server := s
    toClient := (if answer = [] then [] else [⟨t.ownersAfter d d.port, d.port, answer⟩]) ++ t.toClient
    owners := t.ownersAfter d
    completed := new.map (fun x => (t.ownersAfter d d.port, x)) ++ t.completed }

/-- What happens at the server and in the network. -/
inductive Step (localAddr : Ipv4Address) : Traffic → Traffic → Prop where
  /-- the server receives a datagram of the device, which stays on its way -/
  | serverReceives {t : Traffic} {d : Datagram} {host : Host} {answer : List UInt8} {s : Server}
      {new : List Session} : d ∈ t.toServer → t.server.done = false → d.data.length ≤ 1024 →
      t.server.packetIn host localAddr d.port d.data = .done (s, answer) →
      s.finished = new ++ t.server.finished → Step localAddr t (t.answered d s answer new)
  /-- the server receives a datagram of another machine -/
  | serverOther {t : Traffic} {addr : Ipv4Address} {port : ℕ} {host : Host} {buf answer : List UInt8}
      {s : Server} : addr ≠ localAddr → t.server.done = false → buf.length ≤ 1024 →
      t.server.packetIn host addr port buf = .done (s, answer) →
      Step localAddr t { t with server := s }
  /-- files appear -/
  | files {t : Traffic} {files : List UInt8 → Option (List UInt8)} :
      t.server.KeepsFiles { t.server with files := files } →
      Step localAddr t { t with server := { t.server with files := files } }
  /-- datagrams get lost -/
  | drops {t : Traffic} {toServer toClient : List Datagram} : toServer ⊆ t.toServer →
      toClient ⊆ t.toClient → Step localAddr t { t with toServer := toServer, toClient := toClient }

end Traffic

/-! ## Sequences of calls -/

/-- The device and its calls so far. -/
structure Transfers : Type extends Traffic where
  /-- the device -/
  dev : Ipv4EthernetDevice
  /-- the call in progress, and its socket -/
  current : Option (UdpSocket × Call)
  /-- the datagrams that were passed to a call and handled, with the number of the call -/
  accepted : List (ℕ × Datagram)
  /-- the names and results of the reads that completed -/
  reads : List (CString × List UInt8)
  /-- the numbers and files of the writes that reported success -/
  writes : List (ℕ × List UInt8)

namespace Transfers

/-- The address of the device. -/
abbrev localAddr (s : Transfers) : Ipv4Address := s.dev.ipv4Config_.addr

/-- Nothing has happened yet. -/
structure Init (s : Transfers) : Prop where
  /-- the server has no sessions -/
  sessions : s.server.sessions_ = []
  /-- no transfers -/
  started : s.started = 0
  /-- no datagrams -/
  quiet : s.toServer = [] ∧ s.toClient = []
  /-- no sessions belong to a transfer -/
  owners : s.owners = fun _ => 0
  /-- no call is in progress -/
  current : s.current = none
  /-- and none has been -/
  calls : s.completed = [] ∧ s.accepted = [] ∧ s.reads = [] ∧ s.writes = []

/-- A call has returned, with success. -/
def finish (s : Transfers) : Call → Transfers
  | .read filename reader => { s with reads := (filename, reader.op.data_) :: s.reads }
  | .write _ data _ => { s with writes := (s.started, data) :: s.writes }

/-- The socket of the call that returns is closed. -/
def close (s : Transfers) (socket : UdpSocket) : Transfers :=
  { s with
    dev := (udpClose socket.localAddr_ socket.localPort_ s.dev).state
    current := none }

/-- A call starts where `C` holds, does something or returns, or something else happens. The server
of all calls is the one of `tftp_address`. -/
inductive Step (C : Transfers → Call → Prop) : Transfers → Transfers → Prop where
  /-- a call opens its socket and sends its request -/
  | starts {s : Transfers} {call : Call} {packets : List (List UInt8)} {socket : UdpSocket} :
      s.current = none → C s call →
      (udpOpen s.localAddr 0 (s.started + 1) s.dev).outcome = .done socket →
      call.Construct packets →
      Step C s { s with
        toTraffic := Traffic.send { s.toTraffic with started := s.started + 1 } socket.localPort_ packets
        dev := (udpOpen s.localAddr 0 (s.started + 1) s.dev).state
        current := some (socket, call) }
  /-- `udp_in` finds the socket of the call, and the call handles the packet -/
  | receives {s : Transfers} {socket : UdpSocket} {call call' : Call} {d : Datagram}
      {packets : List (List UInt8)} : s.current = some (socket, call) → d ∈ s.toClient →
      s.dev.findOpenUdpSocket s.localAddr d.port =
        some ⟨socket.localAddr_, socket.localPort_, s.started⟩ →
      call.tftpIn d.data = .done (call', packets) →
      Step C s { s with
        toTraffic := s.toTraffic.send socket.localPort_ packets
        current := some (socket, call')
        accepted := (s.started, d) :: s.accepted }
  /-- the call goes on -/
  | ticks {s : Transfers} {socket : UdpSocket} {call call' : Call} {r : Result}
      {packets : List (List UInt8)} : s.current = some (socket, call) →
      call.tick = .done (r, call', packets) → r ≠ .done →
      Step C s { s with
        toTraffic := s.toTraffic.send socket.localPort_ packets
        current := some (socket, call') }
  /-- the call is done -/
  | finishes {s : Transfers} {socket : UdpSocket} {call call' : Call} {packets : List (List UInt8)} :
      s.current = some (socket, call) → call.tick = .done (.done, call', packets) →
      (udpClose socket.localAddr_ socket.localPort_ s.dev).outcome = .done ⟨⟩ →
      Step C s ((s.finish call').close socket)
  /-- the call quits -/
  | quits {s : Transfers} {socket : UdpSocket} {call : Call} : s.current = some (socket, call) →
      (udpClose socket.localAddr_ socket.localPort_ s.dev).outcome = .done ⟨⟩ →
      Step C s (s.close socket)
  /-- something happens at the server or in the network -/
  | traffic {s : Transfers} {t : Traffic} : s.toTraffic.Step s.localAddr t →
      Step C s { s with toTraffic := t }
  /-- the device does something else, with other sockets or the ARP table -/
  | device {s : Transfers} {dev : Ipv4EthernetDevice} : dev.ipv4Config_ = s.dev.ipv4Config_ →
      Step C s { s with dev := dev }

/-- **What is expected of the calls.** -/
structure Correct (s : Transfers) : Prop where
  /-- a call takes the datagrams that belong to it -/
  accepted : ∀ x ∈ s.accepted, x.2.transfer = x.1
  /-- a read that completes returns the contents of its file -/
  reads : ∀ x ∈ s.reads, s.server.files x.1.chars = some x.2
  /-- a write that reports success has a session that has received the whole file -/
  writes : ∀ x ∈ s.writes, ∃ session, (x.1, session) ∈ s.completed ∧
    session.received = List.range' 1 (blockCount x.2.length) ∧ session.data_ = x.2

/-- The call does not write a file of the largest size, and no datagram is on its way to or from the
first free port. -/
def Undisturbed (s : Transfers) (call : Call) : Prop :=
  ¬ call.WritesLargest ∧ ∀ d ∈ s.toServer ++ s.toClient, ¬ s.dev.FirstFree s.localAddr d.port

end Transfers

end Attos.Net.Tftp
