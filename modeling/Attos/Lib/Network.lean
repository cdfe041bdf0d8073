import Attos.Lib.Reach

/-!
# Two parties and a bad network

A client and a server exchange packets over a network that loses, duplicates,
delays and reorders them: a packet that was sent once can be received at any
later time, any number of times, or never. So the state of the network is the
list of all packets sent so far.

A contract says what holds of the server, of the client and of the packets, and
that each party keeps its part if the packets it receives keep theirs. What the
client and the packets to it rely on can depend on the server, as long as the
server does not take it back. A contract holds in every reachable state
(`Contract.holds`).
-/

namespace Lib

variable {Client Server Packet : Type}

/-- The parties and the packets sent so far. -/
structure Network (Client Server Packet : Type) : Type where
  /-- the client -/
  client : Client
  /-- the server -/
  server : Server
  /-- the packets sent to the server -/
  toServer : List Packet
  /-- the packets sent to the client -/
  toClient : List Packet

/-- What the parties can do. Each step of a party comes with the packets it
sends. -/
structure Protocol (Client Server Packet : Type) : Type where
  /-- the client starts -/
  clientInit : Client → List Packet → Prop
  /-- the server is ready -/
  serverInit : Server → Prop
  /-- the client receives a packet -/
  clientReceive : Client → Packet → Client → List Packet → Prop
  /-- the client acts on its own -/
  clientAct : Client → Client → List Packet → Prop
  /-- the server receives a packet -/
  serverReceive : Server → Packet → Server → List Packet → Prop
  /-- the server changes for another reason -/
  serverAct : Server → Server → Prop

namespace Protocol

variable (P : Protocol Client Server Packet)

/-- Nothing is in flight but what the client starts with. -/
def Init (n : Network Client Server Packet) : Prop :=
  P.clientInit n.client n.toServer ∧ P.serverInit n.server ∧ n.toClient = []

/-- A party takes a step. -/
inductive Step : Network Client Server Packet → Network Client Server Packet → Prop where
  /-- the client receives a packet that was sent -/
  | clientReceive {n : Network Client Server Packet} {p : Packet} {c : Client} {out : List Packet} :
      p ∈ n.toClient → P.clientReceive n.client p c out →
        Step n { n with client := c, toServer := out ++ n.toServer }
  /-- the client acts -/
  | clientAct {n : Network Client Server Packet} {c : Client} {out : List Packet} :
      P.clientAct n.client c out → Step n { n with client := c, toServer := out ++ n.toServer }
  /-- the server receives a packet that was sent -/
  | serverReceive {n : Network Client Server Packet} {p : Packet} {s : Server} {out : List Packet} :
      p ∈ n.toServer → P.serverReceive n.server p s out →
        Step n { n with server := s, toClient := out ++ n.toClient }
  /-- the server changes -/
  | serverAct {n : Network Client Server Packet} {s : Server} :
      P.serverAct n.server s → Step n { n with server := s }

/-- The states of all runs. -/
abbrev Reachable : Network Client Server Packet → Prop := Reach P.Init P.Step

end Protocol

/-- What holds in the runs of a protocol, and why each party keeps it. -/
structure Contract (P : Protocol Client Server Packet) : Type where
  /-- what holds of the server -/
  server : Server → Prop
  /-- what holds of the client, with this server -/
  client : Server → Client → Prop
  /-- what holds of the packets to the server -/
  toServer : Packet → Prop
  /-- what holds of the packets to the client, with this server -/
  toClient : Server → Packet → Prop
  /-- the server starts with it -/
  server_init : ∀ s, P.serverInit s → server s
  /-- the client starts with it -/
  client_init : ∀ s c out, P.serverInit s → P.clientInit c out →
    client s c ∧ ∀ p ∈ out, toServer p
  /-- the client keeps it when it receives a packet -/
  client_receive : ∀ s c p c' out, client s c → toClient s p → P.clientReceive c p c' out →
    client s c' ∧ ∀ p ∈ out, toServer p
  /-- the client keeps it when it acts -/
  client_act : ∀ s c c' out, client s c → P.clientAct c c' out →
    client s c' ∧ ∀ p ∈ out, toServer p
  /-- the server keeps it when it receives a packet -/
  server_receive : ∀ s p s' out, server s → toServer p → P.serverReceive s p s' out →
    server s' ∧ (∀ p ∈ out, toClient s' p) ∧
      (∀ c, client s c → client s' c) ∧ ∀ p, toClient s p → toClient s' p
  /-- the server keeps it when it changes -/
  server_act : ∀ s s', server s → P.serverAct s s' →
    server s' ∧ (∀ c, client s c → client s' c) ∧ ∀ p, toClient s p → toClient s' p

namespace Contract

variable {P : Protocol Client Server Packet} {n : Network Client Server Packet}

/-- The contract holds in a state. -/
structure Holds (C : Contract P) (n : Network Client Server Packet) : Prop where
  /-- of the server -/
  server : C.server n.server
  /-- of the client -/
  client : C.client n.server n.client
  /-- of the packets to the server -/
  toServer : ∀ p ∈ n.toServer, C.toServer p
  /-- of the packets to the client -/
  toClient : ∀ p ∈ n.toClient, C.toClient n.server p

/-- **A contract holds in every run.** -/
theorem holds (C : Contract P) (hn : P.Reachable n) : C.Holds n := by
  refine Reach.invariant C.Holds hn ?_ ?_
  · rintro n ⟨hc, hs, hnone⟩
    obtain ⟨hclient, hout⟩ := C.client_init _ _ _ hs hc
    refine ⟨C.server_init _ hs, hclient, hout, ?_⟩
    rw [hnone]
    exact fun p hp => absurd hp List.not_mem_nil
  · intro n n' h hstep
    cases hstep with
    | clientReceive hp hrun =>
      obtain ⟨hclient, hout⟩ := C.client_receive _ _ _ _ _ h.client (h.toClient _ hp) hrun
      refine ⟨h.server, hclient, fun p hp => ?_, h.toClient⟩
      exact (List.mem_append.mp hp).elim (hout p) (h.toServer p)
    | clientAct hrun =>
      obtain ⟨hclient, hout⟩ := C.client_act _ _ _ _ h.client hrun
      refine ⟨h.server, hclient, fun p hp => ?_, h.toClient⟩
      exact (List.mem_append.mp hp).elim (hout p) (h.toServer p)
    | serverReceive hp hrun =>
      obtain ⟨hserver, hout, hclient, hold⟩ :=
        C.server_receive _ _ _ _ h.server (h.toServer _ hp) hrun
      refine ⟨hserver, hclient _ h.client, h.toServer, fun p hp => ?_⟩
      exact (List.mem_append.mp hp).elim (hout p) fun hp => hold p (h.toClient p hp)
    | serverAct hrun =>
      obtain ⟨hserver, hclient, hold⟩ := C.server_act _ _ h.server hrun
      exact ⟨hserver, hclient _ h.client, h.toServer, fun p hp => hold p (h.toClient p hp)⟩

end Contract

end Lib
