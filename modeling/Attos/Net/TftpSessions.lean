import Attos.Net.TftpServer

/-!
# The sessions of the TFTP server

A request closes the session of its client before it starts another one, so a client has one
session at most (`Server.OneEach`), and a request is answered as if the client had none
(`Server.packetIn_erase`).

The server does not look at the sessions that were completed: with others it answers the same, and
adds the same one (`Server.packetIn_completes`).
-/

namespace Attos.Net.Tftp

open Lib

namespace Server

variable {s s' : Server} {remoteAddr : Ipv4Address} {remotePort : ℕ} {host : Host} {data out buf : List UInt8}
  {isRead : Bool}

/-! ## One session for each client -/

/-- The client of a session. -/
def client (x : Session) : Ipv4Address × ℕ := (x.remoteAddr_, x.remotePort_)

theorem isFrom_iff {x : Session} : x.IsFrom remoteAddr remotePort ↔ client x = (remoteAddr, remotePort) := by
  simp [Session.IsFrom, client]

/-- No two sessions are of one client. -/
def OneEach (s : Server) : Prop := (s.sessions_.map client).Nodup

/-- An erased session was the only one. -/
theorem OneEach.not_mem_erase (h : s.OneEach) :
    ∀ x ∈ (s.erase remoteAddr remotePort).sessions_, ¬ x.IsFrom remoteAddr remotePort := by
  rw [OneEach] at h
  simp only [erase]
  generalize s.sessions_ = l at h ⊢
  induction l with
  | nil =>
    intro x hx
    cases hx
  | cons y l ih =>
    rw [List.map_cons, List.nodup_cons] at h
    intro x hx hfrom
    by_cases hy : y.IsFrom remoteAddr remotePort
    · rw [List.eraseP_cons_of_pos (by simpa using hy)] at hx
      apply h.1
      rw [isFrom_iff.mp hy, ← isFrom_iff.mp hfrom]
      exact List.mem_map_of_mem hx
    · rw [List.eraseP_cons_of_neg (by simpa using hy)] at hx
      rcases List.mem_cons.mp hx with rfl | hx
      · exact hy hfrom
      · exact ih h.2 x hx hfrom

theorem OneEach.erase (h : s.OneEach) : (s.erase remoteAddr remotePort).OneEach :=
  List.Nodup.sublist (List.eraseP_sublist.map client) h

/-- Erasing again does nothing. -/
theorem OneEach.erase_erase (h : s.OneEach) :
    (s.erase remoteAddr remotePort).erase remoteAddr remotePort = s.erase remoteAddr remotePort := by
  have hnone := @OneEach.not_mem_erase _ remoteAddr remotePort h
  have hsame : (s.erase remoteAddr remotePort).sessions_.eraseP
      (fun x => x.IsFrom remoteAddr remotePort) = (s.erase remoteAddr remotePort).sessions_ :=
    List.eraseP_of_forall_not fun x hx => by simpa using hnone x hx
  rw [Server.erase, hsame]

/-- A session is started behind the erased one. -/
theorem OneEach.push {y : Session} (h : s.OneEach) (hy : y.IsFrom remoteAddr remotePort) :
    ((s.erase remoteAddr remotePort).push y).OneEach := by
  have hnone := @OneEach.not_mem_erase _ remoteAddr remotePort h
  rw [OneEach, Server.push]
  rw [List.map_append, List.nodup_append]
  refine ⟨h.erase, List.nodup_singleton _, ?_⟩
  intro c hc c' hc' heq
  obtain ⟨x, hx, rfl⟩ := List.mem_map.mp hc
  obtain rfl := List.mem_singleton.mp hc'
  apply hnone x hx
  rw [isFrom_iff, heq, ← isFrom_iff]
  exact hy

/-- A changed session keeps its client. -/
theorem map_client_update {y : Session} (hy : y.IsFrom remoteAddr remotePort) :
    (s.update remoteAddr remotePort y).sessions_.map client = s.sessions_.map client := by
  simp only [update]
  generalize s.sessions_ = l
  induction l with
  | nil => rfl
  | cons x l ih =>
    rw [List.replaceF_cons]
    by_cases hx : x.IsFrom remoteAddr remotePort
    · simp [hx, isFrom_iff.mp hx, isFrom_iff.mp hy]
    · simp [hx, ih]

/-- **A client has one session at most**, whatever the server receives. -/
theorem packetIn_oneEach (h : s.OneEach)
    (hrun : s.packetIn host remoteAddr remotePort buf = .done (s', out)) : s'.OneEach := by
  rw [packetIn] at hrun
  obtain ⟨-, hrun⟩ := Outcome.require_bind_eq_done.mp hrun
  obtain ⟨⟨opcode, data⟩, -, hrun⟩ := Outcome.bind_eq_done.mp hrun
  have hrequest : ∀ {isRead}, s.request isRead remoteAddr remotePort data = .done (s', out) →
      s'.OneEach := by
    intro isRead hrun
    obtain ⟨filename, rest, -, ⟨rfl, -⟩ | ⟨-, file, -, -, rfl, -⟩ | ⟨-, -, rfl⟩⟩ :=
      request_eq_done hrun
    · exact h.erase
    · exact h.push ⟨rfl, rfl⟩
    · exact h.push ⟨rfl, rfl⟩
  cases opcode with
  | rrq => exact hrequest hrun
  | wrq => exact hrequest hrun
  | data =>
    obtain ⟨k, payload, x, y, -, hfind, hgot, -, ⟨-, hsessions, -, -⟩ | ⟨-, rfl, -⟩⟩ :=
      dataIn_eq_done hrun
    · rw [OneEach, hsessions]
      exact h.erase
    · have hfrom : y.IsFrom remoteAddr remotePort := by
        obtain ⟨-, -, -, -, rfl⟩ := Session.gotData_eq_done hgot
        exact (find_eq_some hfind).2
      rw [OneEach, map_client_update hfrom]
      exact h
  | ack =>
    obtain ⟨k, rest, x, -, -, ⟨rfl, -⟩ | ⟨rfl, -⟩⟩ := ackIn_eq_done hrun
    · exact h.erase
    · exact h
  | error =>
    cases hrun
    exact h
  | other n =>
    cases hrun
    exact h

/-- **A request closes the previous session first**: it is answered as if there was none. -/
theorem packetIn_erase {opcode : Opcode} (h : s.OneEach) (hbuf : getOpcode buf = .done (opcode, data))
    (hop : opcode = .rrq ∨ opcode = .wrq) :
    (s.erase remoteAddr remotePort).packetIn host remoteAddr remotePort buf =
      s.packetIn host remoteAddr remotePort buf := by
  have hrequest : ∀ isRead, (s.erase remoteAddr remotePort).request isRead remoteAddr remotePort data =
      s.request isRead remoteAddr remotePort data := by
    intro isRead
    rw [request, request, h.erase_erase]
  rw [packetIn, packetIn, hbuf]
  rcases hop with rfl | rfl
  · simp only [Outcome.done_bind, hrequest]
  · simp only [Outcome.done_bind, hrequest]

/-! ## The completed sessions -/

/-- The server with other completed sessions. -/
def withFinished (s : Server) (finished : List Session) : Server := { s with finished := finished }

@[simp] theorem withFinished_finished (finished : List Session) :
    (s.withFinished finished).finished = finished := rfl

@[simp] theorem withFinished_sessions (finished : List Session) :
    (s.withFinished finished).sessions_ = s.sessions_ := rfl

@[simp] theorem withFinished_files (finished : List Session) :
    (s.withFinished finished).files = s.files := rfl

@[simp] theorem withFinished_done (finished : List Session) :
    (s.withFinished finished).done = s.done := rfl

/-- A request completes no session. -/
theorem request_finished (h : s.request isRead remoteAddr remotePort data = .done (s', out)) :
    s'.finished = s.finished ∧ ∀ finished, (s.withFinished finished).request isRead remoteAddr
      remotePort data = .done (s'.withFinished finished, out) := by
  unfold request at h ⊢
  obtain ⟨⟨filename, rest⟩, hname, h⟩ := Outcome.bind_eq_done.mp h
  obtain ⟨⟨mode, rest'⟩, hmode, h⟩ := Outcome.bind_eq_done.mp h
  simp only [hname, hmode, Outcome.done_bind]
  dsimp only at h
  by_cases hoctet : mode ≠ ascii "octet"
  · rw [if_pos hoctet] at h
    cases h
    exact ⟨rfl, fun finished => if_pos hoctet⟩
  rw [if_neg hoctet] at h
  simp only [if_neg hoctet]
  by_cases hvalid : ¬ validFilename filename
  · rw [if_pos hvalid] at h
    cases h
    exact ⟨rfl, fun finished => if_pos hvalid⟩
  rw [if_neg hvalid] at h
  simp only [if_neg hvalid]
  have hfiles : ∀ finished, ((s.withFinished finished).erase remoteAddr remotePort).files = s.files :=
    fun _ => rfl
  cases isRead with
  | true =>
    simp only [if_true] at h ⊢
    simp only [hfiles]
    cases hfile : s.files filename with
    | none =>
      have hfile' : (s.erase remoteAddr remotePort).files filename = none := hfile
      rw [hfile'] at h
      cases h
      exact ⟨rfl, fun _ => rfl⟩
    | some file =>
      have hfile' : (s.erase remoteAddr remotePort).files filename = some file := hfile
      rw [hfile'] at h
      obtain ⟨hlegal, h⟩ := Outcome.require_bind_eq_done.mp h
      obtain ⟨b, hb, h⟩ := Outcome.bind_eq_done.mp h
      cases h
      refine ⟨rfl, fun _ => ?_⟩
      simp only [Outcome.require_pos hlegal, Outcome.done_bind, hb]
      rfl
  | false =>
    simp only [Bool.false_eq_true, if_false] at h ⊢
    by_cases hexists : s.FileExists filename
    · rw [if_pos (by exact hexists)] at h
      cases h
      exact ⟨rfl, fun _ => if_pos hexists⟩
    · rw [if_neg (by exact hexists)] at h
      cases h
      exact ⟨rfl, fun _ => if_neg hexists⟩

/-- Neither does an acknowledgment. -/
theorem ackIn_finished (h : s.ackIn remoteAddr remotePort data = .done (s', out)) :
    s'.finished = s.finished ∧ ∀ finished, (s.withFinished finished).ackIn remoteAddr remotePort data =
      .done (s'.withFinished finished, out) := by
  unfold ackIn at h ⊢
  obtain ⟨⟨k, rest⟩, hk, h⟩ := Outcome.bind_eq_done.mp h
  obtain ⟨session, hfind, h⟩ := Outcome.bind_eq_done.mp h
  obtain ⟨hrange, h⟩ := Outcome.require_bind_eq_done.mp h
  have hfind' : ∀ finished, Outcome.requireSome ((s.withFinished finished).find remoteAddr remotePort) =
      .done session := fun _ => hfind
  simp only [hk, Outcome.done_bind, hfind', Outcome.require_pos hrange]
  by_cases hlast : k = session.blockCount
  · rw [if_pos hlast] at h
    cases h
    exact ⟨rfl, fun _ => if_pos hlast⟩
  · rw [if_neg hlast] at h
    obtain ⟨b, hb, h⟩ := Outcome.bind_eq_done.mp h
    cases h
    refine ⟨rfl, fun _ => ?_⟩
    rw [if_neg hlast, hb]
    rfl

/-- Neither does writing a file look at them. -/
theorem storeFile_withFinished {x : Session} (h : s.storeFile host x = .done (s', out)) (finished : List Session) :
    (s.withFinished finished).storeFile host x = .done (s'.withFinished finished, out) := by
  obtain ⟨hname, ⟨hexists, rfl, rfl⟩ | ⟨hnew, hopens, rfl, rfl⟩⟩ := storeFile_eq_done h
  · rw [storeFile, Outcome.require_pos hname, Outcome.done_bind]
    exact if_pos hexists
  · rw [storeFile, Outcome.require_pos hname, Outcome.done_bind]
    have hnew' : ¬ (s.withFinished finished).FileExists (x.filename_ ++ host.tail) := hnew
    dsimp only
    rw [if_neg hnew', hopens]
    rfl

/-- The last block completes the session. -/
theorem dataIn_finished (h : s.dataIn host remoteAddr remotePort data = .done (s', out)) :
    ∃ new, s'.finished = new ++ s.finished ∧ ∀ finished, (s.withFinished finished).dataIn host
      remoteAddr remotePort data = .done (s'.withFinished (new ++ finished), out) := by
  unfold dataIn at h ⊢
  obtain ⟨⟨k, payload⟩, hk, h₁⟩ := Outcome.bind_eq_done.mp h
  obtain ⟨x, hfind, h₂⟩ := Outcome.bind_eq_done.mp h₁
  obtain ⟨⟨expected, y⟩, hgot, h₃⟩ := Outcome.bind_eq_done.mp h₂
  clear h h₁ h₂
  have hfind' : ∀ finished, Outcome.requireSome ((s.withFinished finished).find remoteAddr remotePort) =
      .done x := fun _ => hfind
  simp only [hk, Outcome.done_bind, hfind', hgot]
  dsimp only at h₃
  by_cases hshort : payload.length < blockSize
  · simp only [if_pos hshort] at h₃ ⊢
    obtain ⟨⟨s₁, error⟩, hstore, h₃⟩ := Outcome.bind_eq_done.mp h₃
    have hfinished := (storeFile_frame hstore).2.1
    cases h₃
    refine ⟨[y], congrArg (y :: ·) hfinished, fun finished => ?_⟩
    simp only [storeFile_withFinished hstore finished, Outcome.done_bind]
    rfl
  · rw [if_neg hshort] at h₃
    cases h₃
    exact ⟨[], rfl, fun _ => if_neg hshort⟩

/-- **The completed sessions are not looked at**: with others, the server answers the same and adds
the same ones, which are of the client of the packet. -/
theorem packetIn_completes (h : s.packetIn host remoteAddr remotePort buf = .done (s', out)) :
    ∃ new, s'.finished = new ++ s.finished ∧ (∀ x ∈ new, x.IsFrom remoteAddr remotePort) ∧
      ∀ finished, (s.withFinished finished).packetIn host remoteAddr remotePort buf =
        .done (s'.withFinished (new ++ finished), out) := by
  have hadds : ∃ new, s'.finished = new ++ s.finished ∧ ∀ finished, (s.withFinished finished).packetIn
      host remoteAddr remotePort buf = .done (s'.withFinished (new ++ finished), out) := by
    unfold packetIn at h ⊢
    obtain ⟨hremote, h⟩ := Outcome.require_bind_eq_done.mp h
    obtain ⟨⟨opcode, data⟩, hop, h⟩ := Outcome.bind_eq_done.mp h
    simp only [Outcome.require_pos hremote, hop, Outcome.done_bind]
    cases opcode with
    | rrq => exact ⟨[], request_finished h⟩
    | wrq => exact ⟨[], request_finished h⟩
    | ack => exact ⟨[], ackIn_finished h⟩
    | data => exact dataIn_finished h
    | error =>
      cases h
      exact ⟨[], rfl, fun _ => rfl⟩
    | other n =>
      cases h
      exact ⟨[], rfl, fun _ => rfl⟩
  obtain ⟨new, hnew, hruns⟩ := hadds
  refine ⟨new, hnew, fun x hx => ?_, hruns⟩
  -- from a server that has completed no sessions
  have hfinished := packetIn_finished (hruns []) x
  simp only [withFinished_finished, List.append_nil, List.not_mem_nil, false_or] at hfinished
  exact hfinished hx

end Server

end Attos.Net.Tftp
