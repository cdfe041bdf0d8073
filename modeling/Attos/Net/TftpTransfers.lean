import Attos.Net.TftpExchange

/-!
# One transfer after another

There is nothing in a packet that says which transfer it is for: a block that comes late is taken by
the next call (`delayed_block`). If nothing is on its way to or from the port that a call opens, each
call is by itself, and all are correct (`transfers_separate`).
-/

namespace Attos.Net.Tftp

open Lib Ipv4EthernetDevice

/-! ## All calls -/

namespace Transfers

/-- What holds in every run. -/
structure Inv (s : Transfers) : Prop where
  /-- a client of the server has one session at most -/
  oneEach : s.server.OneEach
  /-- no datagram is of a later transfer -/
  numbered : s.Numbered
  /-- the calls were correct -/
  correct : s.Correct
  /-- the current one is by itself -/
  current : ∀ socket call, s.current = some (socket, call) →
    call.Alone s.toTraffic s.localAddr socket.localPort_ ∧ s.Apart socket.localPort_

theorem Init.inv {s : Transfers} (h : s.Init) : s.Inv := by
  obtain ⟨haccepted, hreads, hwrites⟩ := h.calls.2
  refine ⟨?_, ⟨fun d hd => ?_, fun port => ?_⟩, ⟨fun x hx => ?_, fun x hx => ?_, fun x hx => ?_⟩,
    fun socket call hcall => ?_⟩
  · rw [Server.OneEach, h.sessions]
    exact List.nodup_nil
  · rw [h.quiet.1] at hd
    cases hd
  · rw [h.owners]
    exact Nat.zero_le _
  · rw [haccepted] at hx
    cases hx
  · rw [hreads] at hx
    cases hx
  · rw [hwrites] at hx
    cases hx
  · rw [h.current] at hcall
    cases hcall

variable {s s' : Transfers}

/-- What was expected of the calls so far stays so. -/
theorem Correct.mono (h : s.Correct)
    (hcalls : s'.accepted = s.accepted ∧ s'.reads = s.reads ∧ s'.writes = s.writes)
    (hfiles : s.server.KeepsFiles s'.server) (hcompleted : s.completed ⊆ s'.completed) : s'.Correct := by
  obtain ⟨haccepted, hreads, hwrites⟩ := hcalls
  refine ⟨?_, ?_, ?_⟩
  · rw [haccepted]
    exact h.accepted
  · rw [hreads]
    exact fun x hx => hfiles _ _ (h.reads x hx)
  · rw [hwrites]
    intro x hx
    obtain ⟨session, hsession, hreceived⟩ := h.writes x hx
    exact ⟨session, hcompleted hsession, hreceived⟩

/-- A call that is done is correct. -/
theorem Correct.finish {call : Call} (h : s.Correct) (hcall : call.Achieved s.toTraffic) :
    (s.finish call).Correct := by
  cases call with
  | read filename reader =>
    refine ⟨h.accepted, fun x hx => ?_, h.writes⟩
    rcases List.mem_cons.mp hx with rfl | hx
    · exact hcall
    · exact h.reads x hx
  | write filename data writer =>
    refine ⟨h.accepted, h.reads, fun x hx => ?_⟩
    rcases List.mem_cons.mp hx with rfl | hx
    · exact hcall
    · exact h.writes x hx

theorem finish_toTraffic {call : Call} : (s.finish call).toTraffic = s.toTraffic := by
  cases call <;> rfl

/-- **One step.** -/
theorem Inv.step (h : s.Inv) (hstep : Step Undisturbed s s') : s'.Inv := by
  cases hstep with
  | @starts call packets socket hnone hquiet hopen hconstruct =>
    obtain ⟨hne, hquiet⟩ := hquiet
    obtain ⟨rfl, -, hstate⟩ := udpOpen_done hopen
    have hport : ∀ d ∈ s.toServer ++ s.toClient, d.port ≠ s.dev.chosenPort s.localAddr 0 := by
      intro d hd hport
      apply hquiet d hd
      rw [hport]
      exact firstFree_unusedPort
    have hserver : ∀ d ∈ s.toServer, d.port ≠ s.dev.chosenPort s.localAddr 0 := fun d hd =>
      hport d (List.mem_append_left _ hd)
    have hclient : ∀ d ∈ s.toClient, d.port ≠ s.dev.chosenPort s.localAddr 0 := fun d hd =>
      hport d (List.mem_append_right _ hd)
    have hnum : Traffic.Numbered { s.toTraffic with started := s.started + 1 } :=
      ⟨fun d hd => (h.numbered.toServer d hd).trans (Nat.le_succ _),
        fun port => (h.numbered.owners port).trans (Nat.le_succ _)⟩
    have hapart : Traffic.Apart { s.toTraffic with started := s.started + 1 }
        (s.dev.chosenPort s.localAddr 0) := by
      refine ⟨fun d hd => iff_of_false ?_ (hserver d hd), fun d hd hd' => absurd hd' (hclient d hd),
        fun port hport => ?_⟩
      · exact (Nat.lt_succ_of_le (h.numbered.toServer d hd)).ne
      · exact absurd hport (Nat.lt_succ_of_le (h.numbered.owners port)).ne
    refine ⟨h.oneEach, hnum.send, h.correct.mono ⟨rfl, rfl, rfl⟩ (fun _ _ hf => hf)
      (List.Subset.refl _), ?_⟩
    intro socket call' hcall
    cases hcall
    exact ⟨.start hconstruct hne hserver hclient, hapart.send⟩
  | @receives socket call call' d packets hcurrent hd hfind hrun =>
    obtain ⟨halone, hapart⟩ := h.current socket call hcurrent
    have hport : d.port = socket.localPort_ := ((findOpenUdpSocket_eq_some hfind).2.2).symm
    refine ⟨h.oneEach, h.numbered.send, ⟨fun x hx => ?_, h.correct.reads, h.correct.writes⟩, ?_⟩
    · rcases List.mem_cons.mp hx with rfl | hx
      · exact hapart.toClient d hd hport
      · exact h.correct.accepted x hx
    · intro socket' call'' hcall
      cases hcall
      exact ⟨halone.receive hd hport hrun, hapart.send⟩
  | @ticks socket call call' r packets hcurrent hrun _ =>
    obtain ⟨halone, hapart⟩ := h.current socket call hcurrent
    refine ⟨h.oneEach, h.numbered.send, h.correct.mono ⟨rfl, rfl, rfl⟩ (fun _ _ hf => hf)
      (List.Subset.refl _), ?_⟩
    intro socket' call'' hcall
    cases hcall
    exact ⟨halone.tick hrun, hapart.send⟩
  | @finishes socket call call' packets hcurrent hrun _ =>
    obtain ⟨halone, -⟩ := h.current socket call hcurrent
    have hcorrect := h.correct.finish (halone.done hrun)
    have htraffic := @finish_toTraffic s call'
    refine ⟨?_, ?_, hcorrect.mono ⟨rfl, rfl, rfl⟩ (fun _ _ hf => hf) (List.Subset.refl _),
      fun _ _ hcall => ?_⟩
    · change (s.finish call').toTraffic.server.OneEach
      rw [htraffic]
      exact h.oneEach
    · change (s.finish call').toTraffic.Numbered
      rw [htraffic]
      exact h.numbered
    · cases hcall
  | quits _ _ =>
    refine ⟨h.oneEach, h.numbered, h.correct.mono ⟨rfl, rfl, rfl⟩ (fun _ _ hf => hf)
      (List.Subset.refl _), ?_⟩
    intro socket call hcall
    cases hcall
  | traffic hstep =>
    obtain ⟨hfiles, hcompleted, -⟩ := hstep.keeps
    refine ⟨hstep.oneEach h.oneEach, hstep.numbered h.numbered,
      h.correct.mono ⟨rfl, rfl, rfl⟩ hfiles hcompleted, ?_⟩
    intro socket call hcall
    obtain ⟨halone, hapart⟩ := h.current socket call hcall
    exact halone.step hapart h.oneEach hstep
  | @device dev hconfig =>
    refine ⟨h.oneEach, h.numbered, h.correct.mono ⟨rfl, rfl, rfl⟩ (fun _ _ hf => hf)
      (List.Subset.refl _), ?_⟩
    intro socket call hcall
    obtain ⟨halone, hapart⟩ := h.current socket call hcall
    refine ⟨?_, hapart⟩
    rw [localAddr, hconfig]
    exact halone

end Transfers

/-- **Calls are separate where they are undisturbed.** In every run in which each call starts when
nothing is on its way to or from the port it opens, and writes no file of the largest size: a call
takes no datagram of another call, a read that completes returns the contents of its file, and for
a write that reports success the server has received the whole file in a session of this write. -/
theorem transfers_separate {s : Transfers}
    (hs : Reach Transfers.Init (Transfers.Step Transfers.Undisturbed) s) : s.Correct :=
  (hs.invariant Transfers.Inv (fun _ => Transfers.Init.inv) fun _ _ => Transfers.Inv.step).correct

/-! ## A block that comes late -/

/-- The name `b`. -/
def nameB : CString := ⟨ascii "b", by decide⟩

/-- A server with the files `a` and `b`, of one byte each. -/
def twoFiles : Server :=
  ⟨[], fun name => if name = ascii "a" then some [1] else if name = ascii "b" then some [2] else none,
    false, []⟩

/-- 192.168.10.2 before its first call. -/
def beforeCalls : Transfers where
  server := twoFiles
  started := 0
  toServer := []
  toClient := []
  owners _ := 0
  completed := []
  dev := (ipv4Config ⟨0xc0a80a02, 0xffffff00, inaddrAny⟩ (ofHwAddress (Vector.replicate 6 2))).state
  current := none
  accepted := []
  reads := []
  writes := []

/-- A read of a file, with the blocks of one byte it has received. -/
def reading (filename : CString) : Option UInt8 → Call
  | none => .read filename ⟨⟨filename, 0, [], false⟩, defaultTimeout⟩
  | some c => .read filename ⟨⟨filename, 1, [c], true⟩, defaultTimeout⟩

/-- The session of a read. -/
def readSession (filename : CString) (data : List UInt8) : Session :=
  ⟨0xc0a80a02, 49152, filename.chars, true, data, []⟩

section

open Transfers

variable {C : Transfers → Call → Prop}

set_option maxRecDepth 4000 in
/-- The file `a` is read. Its block stays on its way. -/
theorem first_read (hC : C beforeCalls (reading nameA none)) : ∃ s : Transfers,
    Reach Init (Step C) s ∧ s.current = none ∧ s.started = 1 ∧ s.dev = beforeCalls.dev ∧
      s.toClient = [⟨1, 49152, putData 1 [1]⟩] ∧ s.server = twoFiles.push (readSession nameA [1]) ∧
      s.reads = [(nameA, [1])] ∧ s.accepted = [(1, ⟨1, 49152, putData 1 [1]⟩)] := by
  have h₀ : Reach Init (Step C) beforeCalls :=
    .start ⟨rfl, rfl, ⟨rfl, rfl⟩, rfl, rfl, rfl, rfl, rfl, rfl⟩
  have h₁ := h₀.step (@Step.starts C beforeCalls (reading nameA none) [putRequest .rrq nameA]
    ⟨0xc0a80a02, 49152⟩ rfl hC (by decide) rfl)
  have h₂ := h₁.step (.traffic (@Traffic.Step.serverReceives _ _ ⟨1, 49152, putRequest .rrq nameA⟩ ⟨[], true⟩
    (putData 1 [1]) (twoFiles.push (readSession nameA [1])) []
    List.mem_cons_self rfl (by decide) rfl rfl))
  have h₃ := h₂.step (@Step.receives C _ ⟨0xc0a80a02, 49152⟩ _ (reading nameA (some 1))
    ⟨1, 49152, putData 1 [1]⟩ [putAck 1] rfl List.mem_cons_self rfl rfl)
  have h₄ := h₃.step (@Step.finishes C _ ⟨0xc0a80a02, 49152⟩ _ (reading nameA (some 1)) [] rfl rfl
    rfl)
  exact ⟨_, h₄, rfl, rfl, rfl, rfl, rfl, rfl, rfl⟩

set_option maxRecDepth 4000 in
/-- The next request closes the session of the first one. -/
theorem second_request : (twoFiles.push (readSession nameA [1])).packetIn ⟨[], true⟩ 0xc0a80a02 49152
    (putRequest .rrq nameB) = .done (twoFiles.push (readSession nameB [2]), putData 1 [2]) := rfl

set_option maxRecDepth 4000 in
/-- When its block is lost, the next call can start. It receives the block of its own file. -/
theorem transfers_separate_two : ∃ s : Transfers, s.started = 2 ∧ s.reads = [(nameB, [2]), (nameA, [1])] ∧
    s.accepted = [(2, ⟨2, 49152, putData 1 [2]⟩), (1, ⟨1, 49152, putData 1 [1]⟩)] ∧ s.Correct := by
  have hfirst : Undisturbed beforeCalls (reading nameA none) := ⟨id, fun d hd => by cases hd⟩
  obtain ⟨s, hs, hcurrent, hstarted, hdev, -, hserver, hreads, haccepted⟩ := first_read hfirst
  obtain ⟨⟨server, started, toServer, toClient, owners, completed⟩, dev, current, accepted, reads,
    writes⟩ := s
  dsimp only at hcurrent hstarted hdev hserver hreads haccepted
  subst hcurrent hstarted hdev hserver hreads haccepted
  have h₁ := hs.step (.traffic (@Traffic.Step.drops _ _ [] [] (List.nil_subset _) (List.nil_subset _)))
  have h₂ := h₁.step (@Step.starts _ _ (reading nameB none) [putRequest .rrq nameB]
    ⟨0xc0a80a02, 49152⟩ rfl ⟨id, fun d hd => by cases hd⟩ rfl rfl)
  have h₃ := h₂.step (.traffic (@Traffic.Step.serverReceives _ _ ⟨2, 49152, putRequest .rrq nameB⟩ ⟨[], true⟩
    (putData 1 [2]) (twoFiles.push (readSession nameB [2])) [] List.mem_cons_self rfl (by decide)
    second_request rfl))
  have h₄ := h₃.step (@Step.receives _ _ ⟨0xc0a80a02, 49152⟩ _ (reading nameB (some 2))
    ⟨2, 49152, putData 1 [2]⟩ [putAck 1] rfl List.mem_cons_self rfl rfl)
  have h₅ := h₄.step (@Step.finishes _ _ ⟨0xc0a80a02, 49152⟩ _ (reading nameB (some 2)) [] rfl rfl rfl)
  exact ⟨_, rfl, rfl, rfl, transfers_separate h₅⟩

set_option maxRecDepth 4000 in
/-- **The block of the first call is taken by the second one**, which returns it as the contents of its
file. -/
theorem delayed_block : ∃ s : Transfers, Reach Init (Step fun _ _ => True) s ∧
    (2, ⟨1, 49152, putData 1 [1]⟩) ∈ s.accepted ∧ (nameB, [1]) ∈ s.reads ∧
    s.server.files nameB.chars = some [2] := by
  obtain ⟨s, hs, hcurrent, hstarted, hdev, htoClient, hserver, -⟩ :=
    @first_read (fun _ _ => True) trivial
  obtain ⟨⟨server, started, toServer, toClient, owners, completed⟩, dev, current, accepted, reads,
    writes⟩ := s
  dsimp only at hcurrent hstarted hdev htoClient hserver
  subst hcurrent hstarted hdev htoClient hserver
  have h₁ := hs.step (@Step.starts _ _ (reading nameB none) [putRequest .rrq nameB]
    ⟨0xc0a80a02, 49152⟩ rfl trivial rfl rfl)
  have h₂ := h₁.step (@Step.receives _ _ ⟨0xc0a80a02, 49152⟩ _ (reading nameB (some 1))
    ⟨1, 49152, putData 1 [1]⟩ [putAck 1] rfl List.mem_cons_self rfl rfl)
  have h₃ := h₂.step (@Step.finishes _ _ ⟨0xc0a80a02, 49152⟩ _ (reading nameB (some 1)) [] rfl rfl rfl)
  exact ⟨_, h₃, List.mem_cons_self, List.mem_cons_self, rfl⟩

/-- The second call takes a datagram of the first one. -/
theorem not_transfers_separate : ¬ ∀ s : Transfers, Reach Init (Step fun _ _ => True) s → s.Correct := by
  intro h
  obtain ⟨s, hs, haccepted, -⟩ := delayed_block
  exact absurd ((h s hs).accepted _ haccepted) (by decide)

end

end Attos.Net.Tftp
