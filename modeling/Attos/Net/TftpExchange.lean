import Attos.Net.TftpCalls
import Attos.Net.TftpDownload
import Attos.Net.TftpSessions
import Attos.Net.TftpUpload

/-!
# One call by itself

A call that starts when nothing is on its way to or from its port is by itself (`Call.Alone`): until
the server takes its request, it goes on as with any server, and from then on the two are in a run of
the protocol of one reader or one writer, whatever other clients do. So what was proved of such a run
holds of the call (`Call.Alone.done`).
-/

namespace Attos.Net.Tftp

open Lib

/-! ## The port of a call -/

namespace Traffic

/-- No datagram is of a later transfer. -/
structure Numbered (t : Traffic) : Prop where
  /-- on the way to the server -/
  toServer : ∀ d ∈ t.toServer, d.transfer ≤ t.started
  /-- no session is -/
  owners : ∀ port, t.owners port ≤ t.started

/-- The port has the datagrams and the session of the current transfer, and no others. -/
structure Apart (t : Traffic) (port : ℕ) : Prop where
  /-- on the way to the server -/
  toServer : ∀ d ∈ t.toServer, d.transfer = t.started ↔ d.port = port
  /-- on the way to the device -/
  toClient : ∀ d ∈ t.toClient, d.port = port → d.transfer = t.started
  /-- no session with another port -/
  owners : ∀ p, t.owners p = t.started → p = port

variable {t t' : Traffic} {port : ℕ} {packets : List (List UInt8)} {localAddr : Ipv4Address}

/-- A request starts a session of its transfer, and another packet belongs to the session. -/
theorem ownersAfter_self {d : Datagram} :
    t.ownersAfter d d.port = if isRequest d.data then d.transfer else t.owners d.port := by
  rw [ownersAfter]
  split_ifs
  · exact Function.update_self _ _ _
  · rfl

theorem ownersAfter_of_ne {d : Datagram} {p : ℕ} (h : p ≠ d.port) :
    t.ownersAfter d p = t.owners p := by
  rw [ownersAfter]
  split_ifs
  · exact Function.update_of_ne h _ _
  · rfl

theorem Numbered.send (h : t.Numbered) : (t.send port packets).Numbered := by
  refine ⟨fun d hd => ?_, h.owners⟩
  rcases List.mem_append.mp hd with hd | hd
  · obtain ⟨p, -, rfl⟩ := List.mem_map.mp hd
    exact le_rfl
  · exact h.toServer d hd

theorem Apart.send (h : t.Apart port) : (t.send port packets).Apart port := by
  refine ⟨fun d hd => ?_, h.toClient, h.owners⟩
  rcases List.mem_append.mp hd with hd | hd
  · obtain ⟨p, -, rfl⟩ := List.mem_map.mp hd
    exact iff_of_true rfl rfl
  · exact h.toServer d hd

/-- The session of a datagram is not of a later transfer. -/
theorem Numbered.ownersAfter_le {d : Datagram} (h : t.Numbered) (hd : d ∈ t.toServer) (p : ℕ) :
    t.ownersAfter d p ≤ t.started := by
  by_cases hp : p = d.port
  · rw [hp, ownersAfter_self]
    split_ifs
    · exact h.toServer d hd
    · exact h.owners _
  · rw [ownersAfter_of_ne hp]
    exact h.owners p

/-- It is of the current transfer only if it has the port. -/
theorem Apart.ownersAfter_eq {d : Datagram} (h : t.Apart port) (hd : d ∈ t.toServer) {p : ℕ}
    (hp : t.ownersAfter d p = t.started) : p = port := by
  by_cases hpd : p = d.port
  · rw [hpd, ownersAfter_self] at hp
    rw [hpd]
    split_ifs at hp
    · exact (h.toServer d hd).mp hp
    · exact h.owners _ hp
  · rw [ownersAfter_of_ne hpd] at hp
    exact h.owners p hp

/-- What happens at the server takes no file and no completed session back, and starts no transfer. -/
theorem Step.keeps (h : t.Step localAddr t') : t.server.KeepsFiles t'.server ∧
    t.completed ⊆ t'.completed ∧ t'.started = t.started := by
  cases h with
  | serverReceives _ _ _ hrun _ =>
    exact ⟨(Server.packetIn_frame hrun).2.2, List.subset_append_right _ _, rfl⟩
  | serverOther _ _ _ hrun => exact ⟨(Server.packetIn_frame hrun).2.2, List.Subset.refl _, rfl⟩
  | files hkeeps => exact ⟨hkeeps, List.Subset.refl _, rfl⟩
  | drops _ _ => exact ⟨fun _ _ hf => hf, List.Subset.refl _, rfl⟩

theorem Step.oneEach (h : t.Step localAddr t') (hone : t.server.OneEach) : t'.server.OneEach := by
  cases h with
  | serverReceives _ _ _ hrun _ => exact Server.packetIn_oneEach hone hrun
  | serverOther _ _ _ hrun => exact Server.packetIn_oneEach hone hrun
  | files _ => exact hone
  | drops _ _ => exact hone

theorem Step.numbered (h : t.Step localAddr t') (hnum : t.Numbered) : t'.Numbered := by
  cases h with
  | serverReceives hd _ _ _ _ => exact ⟨hnum.toServer, hnum.ownersAfter_le hd⟩
  | serverOther _ _ _ _ => exact ⟨hnum.toServer, hnum.owners⟩
  | files _ => exact ⟨hnum.toServer, hnum.owners⟩
  | drops hto _ => exact ⟨fun d hd => hnum.toServer d (hto hd), hnum.owners⟩

end Traffic

/-! ## Calls by themselves -/

/-- The packet is an error. -/
def IsError (p : List UInt8) : Prop := ∃ rest, getOpcode p = .done (.error, rest)

/-- How a call runs by itself: its client, its request and the protocol, which has a parameter that is
known when the server takes the request. -/
structure Exchange (σ ι : Type) (remoteAddr : Ipv4Address) (remotePort : ℕ) : Type where
  /-- what the client does -/
  operation : Operation σ
  /-- the client before it receives a packet -/
  start : σ
  /-- the request -/
  request : List UInt8
  /-- the protocol -/
  protocol : ι → Protocol (Client σ) Server (List UInt8)
  /-- the files that the server takes the request with -/
  Ready : ι → (List UInt8 → Option (List UInt8)) → Prop
  /-- the client is not done before it receives a packet -/
  start_isDone : operation.isDone start = false
  /-- after a timeout it sends the request again -/
  start_onTimeout : operation.onTimeout start = .done (start, [request])
  /-- it does not handle errors -/
  onPacket_error : ∀ c data, operation.onPacket c .error data = .done none
  /-- the request is one -/
  isRequest : isRequest request = true
  /-- it is answered with an error, or the server is ready for it -/
  answer : ∀ {s s' : Server} {host : Host} {out : List UInt8},
    s.packetIn host remoteAddr remotePort request = .done (s', out) →
    s' = s.erase remoteAddr remotePort ∧ IsError out ∨ ∃ i, Ready i s.files
  /-- a server that is ready stays so -/
  ready_keep : ∀ {i} {s s' : Server}, s.KeepsFiles s' → Ready i s.files → Ready i s'.files
  /-- it starts the protocol -/
  serverInit : ∀ {i} {s : Server}, Ready i s.files → s.done = false →
    (∀ x ∈ s.sessions_, ¬ x.IsFrom remoteAddr remotePort) → s.finished = [] → (protocol i).serverInit s
  /-- the client receives -/
  clientReceive : ∀ {i c p c' out}, operation.tftpIn c p = .done (c', out) →
    (protocol i).clientReceive c p c' out
  /-- the client acts -/
  clientAct : ∀ {i c r c' out}, operation.tick c = .done (r, c', out) → (protocol i).clientAct c c' out
  /-- the server receives -/
  serverReceive : ∀ {i p out} {s s' : Server}, s.Receives remoteAddr remotePort p s' out →
    (protocol i).serverReceive s p s' out
  /-- the server receives from another client -/
  serverOther : ∀ {i} {s s' : Server}, s.ReceivesOther remoteAddr remotePort s' → (protocol i).serverAct s s'
  /-- files appear -/
  serverFiles : ∀ {i files} {s : Server}, Ready i files → (protocol i).serverAct s { s with files := files }

namespace Exchange

variable {σ ι : Type} {remoteAddr : Ipv4Address} {remotePort : ℕ}
  (X : Exchange σ ι remoteAddr remotePort)

/-- The client and this server are in a run of the protocol, in which everything that is on its way was
sent. Errors that came before do not count. -/
def Follows (i : ι) (t : Traffic) (c : Client σ) (s : Server) : Prop :=
  ∃ toServer toClient, (X.protocol i).Reachable ⟨c, s, toServer, toClient⟩ ∧
    (∀ d ∈ t.toServer, d.port = remotePort → d.data ∈ toServer) ∧
    ∀ d ∈ t.toClient, d.port = remotePort → d.data ∈ toClient ∨ IsError d.data

/-- The server has not taken the request. -/
structure Waiting (t : Traffic) (c : Client σ) : Prop where
  /-- the client has not received a packet -/
  op : c.op = X.start
  /-- it has sent requests -/
  toServer : ∀ d ∈ t.toServer, d.port = remotePort → d.data = X.request
  /-- they were answered with errors -/
  toClient : ∀ d ∈ t.toClient, d.port = remotePort → IsError d.data
  /-- whatever server takes the request, this is a run with it -/
  follows : ∀ i s, (X.protocol i).serverInit s → X.Follows i t c s

/-- The server has taken the request. -/
structure Working (t : Traffic) (c : Client σ) (i : ι) : Prop where
  /-- the session belongs to the call -/
  owner : t.owners remotePort = t.started
  /-- the server was ready -/
  ready : X.Ready i t.server.files
  /-- the client and the server are in a run, and what was completed in it belongs to the call -/
  follows : ∃ finished, (∀ x ∈ finished, x.IsFrom remoteAddr remotePort → (t.started, x) ∈ t.completed) ∧
    X.Follows i t c (t.server.withFinished finished)

/-- The call runs by itself. -/
def Alone (t : Traffic) (c : Client σ) : Prop := X.Waiting t c ∨ ∃ i, X.Working t c i

variable {X} {t t' : Traffic} {c c' : Client σ} {s s' : Server} {i : ι} {packets : List (List UInt8)}

/-! ### The run of the protocol -/

theorem Follows.mono (h : X.Follows i t c s)
    (hserver : ∀ d ∈ t'.toServer, d.port = remotePort → d ∈ t.toServer)
    (hclient : ∀ d ∈ t'.toClient, d.port = remotePort → d ∈ t.toClient ∨ IsError d.data) :
    X.Follows i t' c s := by
  obtain ⟨toServer, toClient, hreach, hto, hfrom⟩ := h
  refine ⟨toServer, toClient, hreach, fun d hd hport => hto d (hserver d hd hport) hport, ?_⟩
  intro d hd hport
  rcases hclient d hd hport with hd | herror
  · exact hfrom d hd hport
  · exact .inr herror

/-- What the client sends is sent in the run. -/
theorem Follows.send {toServer toClient : List (List UInt8)}
    (hreach : (X.protocol i).Reachable ⟨c', s, packets ++ toServer, toClient⟩)
    (hto : ∀ d ∈ t.toServer, d.port = remotePort → d.data ∈ toServer)
    (hfrom : ∀ d ∈ t.toClient, d.port = remotePort → d.data ∈ toClient ∨ IsError d.data) :
    X.Follows i (t.send remotePort packets) c' s := by
  refine ⟨packets ++ toServer, toClient, hreach, fun d hd hport => ?_, hfrom⟩
  rcases List.mem_append.mp hd with hd | hd
  · obtain ⟨p, hp, rfl⟩ := List.mem_map.mp hd
    exact List.mem_append_left _ hp
  · exact List.mem_append_right _ (hto d hd hport)

theorem Follows.tick {r : Result} (h : X.Follows i t c s)
    (hrun : X.operation.tick c = .done (r, c', packets)) :
    X.Follows i (t.send remotePort packets) c' s := by
  obtain ⟨toServer, toClient, hreach, hto, hfrom⟩ := h
  exact .send (hreach.step (.clientAct (X.clientAct hrun))) hto hfrom

/-- An error is not handled. -/
theorem tftpIn_error {p : List UInt8} (hp : IsError p) : ¬ (X.operation.tftpIn c p).Returns := by
  obtain ⟨rest, hop⟩ := hp
  exact Operation.tftpIn_not_returns hop (X.onPacket_error _ _)

theorem Follows.receive {d : Datagram} (h : X.Follows i t c s) (hd : d ∈ t.toClient)
    (hport : d.port = remotePort) (hrun : X.operation.tftpIn c d.data = .done (c', packets)) :
    X.Follows i (t.send remotePort packets) c' s := by
  obtain ⟨toServer, toClient, hreach, hto, hfrom⟩ := h
  rcases hfrom d hd hport with hmem | herror
  · exact .send (hreach.step (.clientReceive hmem (X.clientReceive hrun))) hto hfrom
  · exact absurd ⟨_, hrun⟩ (tftpIn_error herror)

/-- The server receives a datagram of the client. -/
theorem Follows.answered {d : Datagram} {host : Host} {answer : List UInt8} {new : List Session}
    {s₀ s₁ : Server} (h : X.Follows i t c s₀) (hd : d ∈ t.toServer) (hport : d.port = remotePort)
    (hdone : s₀.done = false)
    (hrun : s₀.packetIn host remoteAddr remotePort d.data = .done (s₁, answer)) :
    X.Follows i (t.answered d s answer new) c s₁ := by
  obtain ⟨toServer, toClient, hreach, hto, hfrom⟩ := h
  refine ⟨toServer, _, hreach.step (.serverReceive (hto d hd hport)
    (X.serverReceive ⟨hdone, host, answer, hrun, rfl⟩)), hto, fun e he hport' => ?_⟩
  rcases List.mem_append.mp he with he | he
  · left
    apply List.mem_append_left
    split_ifs at he ⊢ with hempty
    · exact absurd he List.not_mem_nil
    · rw [List.mem_singleton.mp he]
      exact List.mem_singleton_self _
  · exact (hfrom e he hport').imp_left (List.mem_append_right _)

theorem Follows.act {s₁ : Server} (h : X.Follows i t c s) (hact : (X.protocol i).serverAct s s₁) :
    X.Follows i t c s₁ := by
  obtain ⟨toServer, toClient, hreach, hto, hfrom⟩ := h
  exact ⟨toServer, toClient, hreach.step (.serverAct hact), hto, hfrom⟩

/-! ### The client -/

/-- A client that has not received a packet sends its request at most, and is not done. -/
theorem tick_start {r : Result} (hc : c.op = X.start)
    (hrun : X.operation.tick c = .done (r, c', packets)) :
    c'.op = X.start ∧ r ≠ .done ∧ ∀ p ∈ packets, p = X.request := by
  have hr : r ≠ .done := by
    rintro rfl
    have hdone := Operation.finishes_iff.mp ⟨c', packets, hrun⟩
    rw [hc, X.start_isDone] at hdone
    cases hdone
  rcases Operation.tick_eq_done hrun with ⟨hop, rfl⟩ | htimeout
  · exact ⟨hop.trans hc, hr, fun p hp => absurd hp List.not_mem_nil⟩
  · rw [hc, X.start_onTimeout] at htimeout
    obtain ⟨hop, rfl⟩ := Prod.mk.inj (Outcome.done.inj htimeout)
    exact ⟨hop.symm, hr, fun p hp => List.mem_singleton.mp hp⟩

theorem Alone.tick {r : Result} (h : X.Alone t c)
    (hrun : X.operation.tick c = .done (r, c', packets)) : X.Alone (t.send remotePort packets) c' := by
  rcases h with h | ⟨i, h⟩
  · left
    obtain ⟨hop, -, hpackets⟩ := tick_start h.op hrun
    refine ⟨hop, fun d hd hport => ?_, h.toClient, fun i s hs => (h.follows i s hs).tick hrun⟩
    rcases List.mem_append.mp hd with hd | hd
    · obtain ⟨p, hp, rfl⟩ := List.mem_map.mp hd
      exact hpackets p hp
    · exact h.toServer d hd hport
  · right
    obtain ⟨finished, hfinished, hfollows⟩ := h.follows
    exact ⟨i, h.owner, h.ready, finished, hfinished, hfollows.tick hrun⟩

theorem Alone.receive {d : Datagram} (h : X.Alone t c) (hd : d ∈ t.toClient)
    (hport : d.port = remotePort) (hrun : X.operation.tftpIn c d.data = .done (c', packets)) :
    X.Alone (t.send remotePort packets) c' := by
  rcases h with h | ⟨i, h⟩
  · exact absurd ⟨_, hrun⟩ (tftpIn_error (h.toClient d hd hport))
  · right
    obtain ⟨finished, hfinished, hfollows⟩ := h.follows
    exact ⟨i, h.owner, h.ready, finished, hfinished, hfollows.receive hd hport hrun⟩

/-! ### The server -/

/-- **Another client** leaves the call to itself. -/
theorem Alone.other {addr : Ipv4Address} {port : ℕ} {host : Host} {buf answer : List UInt8} (h : X.Alone t c)
    (hne : ¬ (addr = remoteAddr ∧ port = remotePort)) (hdone : t.server.done = false)
    (hlength : buf.length ≤ 1024)
    (hrun : t.server.packetIn host addr port buf = .done (s', answer)) :
    X.Alone { t with server := s' } c := by
  rcases h with h | ⟨i, h⟩
  · exact .inl ⟨h.op, h.toServer, h.toClient, fun i s hs => (h.follows i s hs).mono
      (fun d hd _ => hd) fun d hd _ => .inl hd⟩
  · right
    obtain ⟨finished, hfinished, hfollows⟩ := h.follows
    obtain ⟨new, -, hnew, hruns⟩ := Server.packetIn_completes hrun
    have hother : (t.server.withFinished finished).ReceivesOther remoteAddr remotePort
        (s'.withFinished (new ++ finished)) :=
      ⟨hdone, host, addr, port, buf, answer, hne, hlength, hruns finished⟩
    have hkeeps := (Server.packetIn_frame hrun).2.2
    refine ⟨i, h.owner, X.ready_keep hkeeps h.ready, new ++ finished, fun x hx hfrom => ?_,
      (hfollows.act (X.serverOther hother)).mono (fun d hd _ => hd) fun d hd _ => .inl hd⟩
    rcases List.mem_append.mp hx with hx | hx
    · -- it is a session of the other client
      obtain ⟨haddr, hport⟩ := hnew x hx
      exact absurd ⟨haddr.symm.trans hfrom.1, hport.symm.trans hfrom.2⟩ hne
    · exact hfinished x hx hfrom

theorem Alone.files {files : List UInt8 → Option (List UInt8)} (h : X.Alone t c)
    (hkeeps : t.server.KeepsFiles { t.server with files := files }) :
    X.Alone { t with server := { t.server with files := files } } c := by
  rcases h with h | ⟨i, h⟩
  · exact .inl ⟨h.op, h.toServer, h.toClient, fun i s hs => (h.follows i s hs).mono
      (fun d hd _ => hd) fun d hd _ => .inl hd⟩
  · right
    obtain ⟨finished, hfinished, hfollows⟩ := h.follows
    have hready := X.ready_keep hkeeps h.ready
    exact ⟨i, h.owner, hready, finished, hfinished,
      (hfollows.act (X.serverFiles hready)).mono (fun d hd _ => hd) fun d hd _ => .inl hd⟩

/-- Nothing new has come for the port. -/
structure NothingNew (remotePort : ℕ) (t t' : Traffic) : Prop where
  /-- at the server -/
  server : t'.server = t.server
  /-- no transfer was started -/
  started : t'.started = t.started
  /-- on the way to the server -/
  toServer : ∀ d ∈ t'.toServer, d.port = remotePort → d ∈ t.toServer
  /-- on the way to the device -/
  toClient : ∀ d ∈ t'.toClient, d.port = remotePort → d ∈ t.toClient
  /-- no request -/
  owners : t'.owners remotePort = t.owners remotePort
  /-- what was completed stays so -/
  completed : t.completed ⊆ t'.completed

theorem Alone.nothingNew (h : X.Alone t c) (hsame : NothingNew remotePort t t') : X.Alone t' c := by
  have hfollows : ∀ {i s}, X.Follows i t c s → X.Follows i t' c s := fun hf =>
    hf.mono hsame.toServer fun d hd hport => .inl (hsame.toClient d hd hport)
  rcases h with h | ⟨i, h⟩
  · exact .inl ⟨h.op, fun d hd hport => h.toServer d (hsame.toServer d hd hport) hport,
      fun d hd hport => h.toClient d (hsame.toClient d hd hport) hport,
      fun i s hs => hfollows (h.follows i s hs)⟩
  · right
    obtain ⟨finished, hfinished, hrun⟩ := h.follows
    refine ⟨i, ?_, hsame.server ▸ h.ready, finished, fun x hx hfrom => ?_, hsame.server ▸ hfollows hrun⟩
    · rw [hsame.owners, hsame.started]
      exact h.owner
    · rw [hsame.started]
      exact hsame.completed (hfinished x hx hfrom)

/-- What the server receives belongs to the call, and so does what it answers. -/
theorem Alone.owner {d : Datagram} (h : X.Alone t c) (hd : d ∈ t.toServer)
    (hport : d.port = remotePort) (htransfer : d.transfer = t.started) :
    t.ownersAfter d d.port = t.started := by
  rw [Traffic.ownersAfter_self]
  rcases h with h | ⟨i, h⟩
  · rw [h.toServer d hd hport, X.isRequest, if_pos rfl]
    exact htransfer
  · split_ifs
    · exact htransfer
    · rw [hport]
      exact h.owner

/-- **The server takes a datagram of the call.** A request that is not answered with an error starts
the run, as if the server had never heard of the client. -/
theorem Alone.answered {d : Datagram} {host : Host} {answer : List UInt8} {new : List Session}
    (h : X.Alone t c) (hone : t.server.OneEach) (hd : d ∈ t.toServer) (hport : d.port = remotePort)
    (htransfer : d.transfer = t.started) (hdone : t.server.done = false)
    (hrun : t.server.packetIn host remoteAddr d.port d.data = .done (s', answer))
    (hnew : s'.finished = new ++ t.server.finished) : X.Alone (t.answered d s' answer new) c := by
  have howner := h.owner hd hport htransfer
  have hcompleted : ∀ x ∈ new, (t.started, x) ∈ (t.answered d s' answer new).completed := by
    intro x hx
    apply List.mem_append_left
    rw [howner]
    exact List.mem_map_of_mem hx
  have howner' : (t.answered d s' answer new).owners remotePort = t.started := by
    rw [← hport]
    exact howner
  have hkeeps := (Server.packetIn_frame hrun).2.2
  have hruns : ∀ {s₀ : Server} {finished}, s₀.finished = t.server.finished →
      s₀.packetIn host remoteAddr d.port d.data = .done (s', answer) →
      (s₀.withFinished finished).packetIn host remoteAddr d.port d.data =
        .done (s'.withFinished (new ++ finished), answer) := by
    intro s₀ finished hs₀ hrun₀
    obtain ⟨new', hnew', -, hruns⟩ := Server.packetIn_completes hrun₀
    rw [hnew, hs₀] at hnew'
    rw [List.append_cancel_right hnew']
    exact hruns finished
  rw [hport] at hrun hruns
  rcases h with h | ⟨i, h⟩
  · have hdata := h.toServer d hd hport
    rw [hdata] at hrun hruns
    rcases X.answer hrun with ⟨-, herror⟩ | ⟨i, hready⟩
    · -- the call still waits
      have hclient : ∀ e ∈ (t.answered d s' answer new).toClient, e.port = remotePort →
          e ∈ t.toClient ∨ IsError e.data := by
        intro e he _
        rcases List.mem_append.mp he with he | he
        · right
          split_ifs at he
          · exact absurd he List.not_mem_nil
          · rw [List.mem_singleton.mp he]
            exact herror
        · exact .inl he
      refine .inl ⟨h.op, h.toServer, fun e he hport' => ?_, fun i s hs =>
        (h.follows i s hs).mono (fun e he _ => he) hclient⟩
      rcases hclient e he hport' with he | he
      · exact h.toClient e he hport'
      · exact he
    · -- from here on the call runs with the server, which has closed its previous session
      right
      obtain ⟨opcode, data, hop, hopcode⟩ := isRequest_iff.mp X.isRequest
      have herase : (t.server.erase remoteAddr remotePort).packetIn host remoteAddr remotePort X.request =
          t.server.packetIn host remoteAddr remotePort X.request :=
        Server.packetIn_erase hone hop hopcode
      let s₀ := (t.server.erase remoteAddr remotePort).withFinished []
      have hinit : (X.protocol i).serverInit s₀ :=
        X.serverInit hready hdone hone.not_mem_erase rfl
      have hrun₀ := @hruns (t.server.erase remoteAddr remotePort) [] rfl (herase.trans hrun)
      rw [← hdata] at hrun₀
      refine ⟨i, howner', X.ready_keep hkeeps hready, new ++ [], fun x hx _ => ?_,
        (h.follows i s₀ hinit).answered hd hport hdone hrun₀⟩
      rw [List.append_nil] at hx
      exact hcompleted x hx
  · right
    obtain ⟨finished, hfinished, hfollows⟩ := h.follows
    refine ⟨i, howner', X.ready_keep hkeeps h.ready, new ++ finished, fun x hx hfrom => ?_,
      hfollows.answered hd hport hdone (hruns rfl hrun)⟩
    rcases List.mem_append.mp hx with hx | hx
    · exact hcompleted x hx
    · exact List.mem_append_right _ (hfinished x hx hfrom)

/-- **A call stays by itself**, whatever happens at the server and in the network. -/
theorem Alone.step (h : X.Alone t c) (hapart : t.Apart remotePort) (hone : t.server.OneEach)
    (hstep : t.Step remoteAddr t') : X.Alone t' c ∧ t'.Apart remotePort := by
  cases hstep with
  | @serverReceives d host answer s new hd hdone hlength hrun hnew =>
    by_cases hport : d.port = remotePort
    · have htransfer := (hapart.toServer d hd).mpr hport
      refine ⟨h.answered hone hd hport htransfer hdone hrun hnew, hapart.toServer,
        fun e he hport' => ?_, fun p hp => hapart.ownersAfter_eq hd hp⟩
      rcases List.mem_append.mp he with he | he
      · split_ifs at he with hempty
        · exact absurd he List.not_mem_nil
        · rw [List.mem_singleton.mp he]
          exact h.owner hd hport htransfer
      · exact hapart.toClient e he hport'
    · -- the answer goes to another port
      have hother : ∀ e ∈ (t.answered d s answer new).toClient, e.port = remotePort →
          e ∈ t.toClient := by
        intro e he hport'
        rcases List.mem_append.mp he with he | he
        · split_ifs at he with hempty
          · exact absurd he List.not_mem_nil
          · rw [List.mem_singleton.mp he] at hport'
            exact absurd hport' hport
        · exact he
      have halone : X.Alone { t with server := s } c :=
        h.other (fun hclient => hport hclient.2) hdone hlength hrun
      refine ⟨halone.nothingNew ⟨rfl, rfl, fun e he _ => he, hother,
        Traffic.ownersAfter_of_ne (Ne.symm hport), List.subset_append_right _ _⟩, hapart.toServer,
        fun e he hport' => hapart.toClient e (hother e he hport') hport',
        fun p hp => hapart.ownersAfter_eq hd hp⟩
  | serverOther haddr hdone hlength hrun =>
    exact ⟨h.other (fun hclient => haddr hclient.1) hdone hlength hrun, hapart.toServer,
      hapart.toClient, hapart.owners⟩
  | files hkeeps => exact ⟨h.files hkeeps, hapart.toServer, hapart.toClient, hapart.owners⟩
  | drops hto hfrom =>
    exact ⟨h.nothingNew ⟨rfl, rfl, fun d hd _ => hto hd, fun d hd _ => hfrom hd, rfl,
      List.Subset.refl _⟩, fun d hd => hapart.toServer d (hto hd),
      fun d hd => hapart.toClient d (hfrom hd), hapart.owners⟩

/-! ### Beginning and end -/

/-- **A call starts by itself** if nothing is on its way to or from its port. -/
theorem alone_start (hc : c.op = X.start) (hpackets : packets = [X.request])
    (hinit : ∀ i, (X.protocol i).clientInit c packets)
    (hserver : ∀ d ∈ t.toServer, d.port ≠ remotePort) (hclient : ∀ d ∈ t.toClient, d.port ≠ remotePort) :
    X.Alone (t.send remotePort packets) c := by
  left
  refine ⟨hc, fun d hd hport => ?_, fun d hd hport => absurd hport (hclient d hd), fun i s hs => ?_⟩
  · rcases List.mem_append.mp hd with hd | hd
    · obtain ⟨p, hp, rfl⟩ := List.mem_map.mp hd
      rw [hpackets] at hp
      exact List.mem_singleton.mp hp
    · exact absurd hport (hserver d hd)
  · have hstart : (X.protocol i).Reachable ⟨c, s, packets ++ [], []⟩ := by
      rw [List.append_nil]
      exact .start ⟨hinit i, hs, rfl⟩
    exact .send hstart (fun d hd hport => absurd hport (hserver d hd))
      fun d hd hport => absurd hport (hclient d hd)

/-- A client that is done has been in a run with the server. -/
theorem Alone.done (h : X.Alone t c) (hrun : X.operation.tick c = .done (.done, c', packets)) :
    c' = c ∧ X.operation.isDone c.op = true ∧ ∃ i, X.Working t c i := by
  obtain ⟨hc, hdone⟩ := Operation.tick_done hrun
  refine ⟨hc, hdone, h.resolve_left fun h => ?_⟩
  exact (tick_start h.op hrun).2.1 rfl

end Exchange

/-! ## The two exchanges -/

/-- A reader by itself. -/
def readExchange (remoteAddr : Ipv4Address) (remotePort : ℕ) (filename : CString) :
    Exchange Reader (List UInt8) remoteAddr remotePort where
  operation := Reader.operation
  start := ⟨filename, 0, [], false⟩
  request := putRequest .rrq filename
  protocol file := downloadProtocol remoteAddr remotePort filename file
  Ready file files := files filename.chars = some file ∧ LegalSize file.length
  start_isDone := rfl
  start_onTimeout := rfl
  onPacket_error c data := rfl
  isRequest := isRequest_iff.mpr ⟨_, _, getOpcode_putRequest (by simp) filename, .inl rfl⟩
  answer {s s' host out} hrun := by
    have hop := @getOpcode_putRequest .rrq (by simp) filename
    obtain ⟨name, rest, hname, hcases⟩ := Server.request_eq_done (Server.packetIn_eq hop hrun)
    rw [getString_putString filename.nonzero] at hname
    cases hname
    rcases hcases with ⟨rfl, ec, msg, rfl⟩ | ⟨-, file, hfile, hlegal, -, -⟩ | ⟨hread, -⟩
    · exact .inl ⟨rfl, getOpcode_putErrorReply ec msg⟩
    · exact .inr ⟨file, hfile, hlegal⟩
    · cases hread
  ready_keep hkeeps hready := ⟨hkeeps _ _ hready.1, hready.2⟩
  serverInit hready hdone hsessions _ := ⟨hdone, hsessions, hready.1⟩
  clientReceive hrun := hrun
  clientAct hrun := ⟨_, hrun⟩
  serverReceive hrun := hrun
  serverOther hrun := .inl hrun
  serverFiles hready := .inr ⟨_, hready.1, rfl⟩

/-- A writer by itself, but not of the largest file: it would be done before it starts. -/
def writeExchange (remoteAddr : Ipv4Address) (remotePort : ℕ) (filename : CString) (data : List UInt8)
    (hfile : LegalSize data.length) (hne : data.length ≠ 33553408) :
    Exchange Writer Unit remoteAddr remotePort where
  operation := Writer.operation
  start := ⟨filename, data, Writer.noAcks⟩
  request := putRequest .wrq filename
  protocol _ := uploadProtocol remoteAddr remotePort filename data
  Ready _ _ := True
  start_isDone := by
    have hblocks := noAcks_ne hfile hne
    rw [← blockCount_eq hfile] at hblocks
    exact decide_eq_false hblocks
  start_onTimeout := rfl
  onPacket_error c data := rfl
  isRequest := isRequest_iff.mpr ⟨_, _, getOpcode_putRequest (by simp) filename, .inr rfl⟩
  answer _ := .inr ⟨⟨⟩, trivial⟩
  ready_keep _ _ := trivial
  serverInit _ hdone hsessions hfinished := ⟨hdone, hsessions, hfinished⟩
  clientReceive hrun := hrun
  clientAct hrun := ⟨_, hrun⟩
  serverReceive hrun := hrun
  serverOther hrun := .inl hrun
  serverFiles _ := .inr ⟨_, rfl⟩

namespace Call

/-- The call runs by itself. -/
def Alone (t : Traffic) (localAddr : Ipv4Address) (port : ℕ) : Call → Prop
  | read filename reader => (readExchange localAddr port filename).Alone t reader
  | write filename data writer => ∃ hfile hne,
      (writeExchange localAddr port filename data hfile hne).Alone t writer

variable {call call' : Call} {t t' : Traffic} {localAddr : Ipv4Address} {port : ℕ}
  {packets : List (List UInt8)}

theorem Alone.start (h : call.Construct packets) (hne : ¬ call.WritesLargest)
    (hserver : ∀ d ∈ t.toServer, d.port ≠ port) (hclient : ∀ d ∈ t.toClient, d.port ≠ port) :
    call.Alone (t.send port packets) localAddr port := by
  cases call with
  | read filename reader =>
    have hconstruct := h
    rw [Construct, Reader.construct] at hconstruct
    obtain ⟨-, hconstruct⟩ := Outcome.require_bind_eq_done.mp hconstruct
    cases hconstruct
    exact Exchange.alone_start rfl rfl (fun _ => h) hserver hclient
  | write filename data writer =>
    obtain ⟨-, -, hfile, -⟩ := Writes.construct h
    have hconstruct := h
    rw [Construct, Writer.construct] at hconstruct
    obtain ⟨-, hconstruct⟩ := Outcome.require_bind_eq_done.mp hconstruct
    obtain ⟨-, hconstruct⟩ := Outcome.require_bind_eq_done.mp hconstruct
    cases hconstruct
    exact ⟨hfile, hne, Exchange.alone_start rfl rfl (fun _ => h) hserver hclient⟩

theorem Alone.tick {r : Result} (h : call.Alone t localAddr port)
    (hrun : call.tick = .done (r, call', packets)) : call'.Alone (t.send port packets) localAddr port := by
  cases call with
  | read filename reader =>
    obtain ⟨⟨r', reader', packets'⟩, htick, hrun⟩ := Outcome.bind_eq_done.mp hrun
    cases hrun
    exact Exchange.Alone.tick h htick
  | write filename data writer =>
    obtain ⟨⟨r', writer', packets'⟩, htick, hrun⟩ := Outcome.bind_eq_done.mp hrun
    cases hrun
    obtain ⟨hfile, hne, h⟩ := h
    exact ⟨hfile, hne, h.tick htick⟩

theorem Alone.receive {d : Datagram} (h : call.Alone t localAddr port) (hd : d ∈ t.toClient)
    (hport : d.port = port) (hrun : call.tftpIn d.data = .done (call', packets)) :
    call'.Alone (t.send port packets) localAddr port := by
  cases call with
  | read filename reader =>
    obtain ⟨⟨reader', packets'⟩, hin, hrun⟩ := Outcome.bind_eq_done.mp hrun
    cases hrun
    exact Exchange.Alone.receive h hd hport hin
  | write filename data writer =>
    obtain ⟨⟨writer', packets'⟩, hin, hrun⟩ := Outcome.bind_eq_done.mp hrun
    cases hrun
    obtain ⟨hfile, hne, h⟩ := h
    exact ⟨hfile, hne, h.receive hd hport hin⟩

theorem Alone.step (h : call.Alone t localAddr port) (hapart : t.Apart port)
    (hone : t.server.OneEach) (hstep : t.Step localAddr t') :
    call.Alone t' localAddr port ∧ t'.Apart port := by
  cases call with
  | read filename reader => exact Exchange.Alone.step h hapart hone hstep
  | write filename data writer =>
    obtain ⟨hfile, hne, h⟩ := h
    obtain ⟨halone, hapart⟩ := h.step hapart hone hstep
    exact ⟨⟨hfile, hne, halone⟩, hapart⟩

/-- A read has the contents of its file, or a session of the write has received its file. -/
def Achieved (t : Traffic) : Call → Prop
  | read filename reader => t.server.files filename.chars = some reader.op.data_
  | write _ data _ => ∃ session, (t.started, session) ∈ t.completed ∧
    session.received = List.range' 1 (blockCount data.length) ∧ session.data_ = data

/-- **A call that is done has done what it was called for.** -/
theorem Alone.done (h : call.Alone t localAddr port)
    (hrun : call.tick = .done (.done, call', packets)) : call'.Achieved t := by
  cases call with
  | read filename reader =>
    obtain ⟨⟨r', reader', packets'⟩, htick, hrun⟩ := Outcome.bind_eq_done.mp hrun
    cases hrun
    obtain ⟨rfl, hdone, file, hworking⟩ := Exchange.Alone.done h htick
    obtain ⟨hfile, hlegal⟩ := hworking.ready
    obtain ⟨finished, -, toServer, toClient, hreach, -⟩ := hworking.follows
    have hread : HasRead filename file reader'.op := ((downloadContract hlegal).holds hreach).client
    rw [Achieved, hfile, hread.data, hread.last hdone, take_last]
  | write filename data writer =>
    obtain ⟨⟨r', writer', packets'⟩, htick, hrun⟩ := Outcome.bind_eq_done.mp hrun
    cases hrun
    obtain ⟨hfile, hne, h⟩ := h
    obtain ⟨rfl, hdone, i, hworking⟩ := h.done htick
    obtain ⟨finished, hfinished, toServer, toClient, hreach, -⟩ := hworking.follows
    obtain ⟨hwrites, hreceived⟩ := ((uploadContract hfile hne).holds hreach).client
    have hlast : writer'.op.lastAck_ = data.length / 512 + 1 := by
      rw [← blockCount_eq hfile, ← hwrites.data]
      exact of_decide_eq_true hdone
    obtain ⟨session, hsession, hfrom, hblocks, hdata⟩ := hreceived hlast
    exact ⟨session, hfinished session hsession hfrom, hblocks, hdata⟩

end Call

end Attos.Net.Tftp
