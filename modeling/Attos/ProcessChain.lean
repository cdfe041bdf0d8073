import Attos.Lib.Reach
import Attos.ProcessTree
import Attos.UserImage

/-!
# Which processes run

A run starts with the root process; then the current process makes system calls,
in any order that they return in. A process that starts another one waits for its
exit, so the running processes are nested (`process_nesting`).

`exit` does not know who waits for the current process: it takes the first
running process in the list of all of them, the newest one first. This is the
right one, as the running processes in the order of the list are a chain in which
each one is owned by the next (`Nested`): a process owns newer ones only, and has
one owner.
-/

namespace Attos

open Lib

namespace Kernel

/-! ## Runs -/

/-- The processes, and what happened to them. -/
structure ProcessRun : Type where
  /-- the processes -/
  kernel : Kernel
  /-- which process called `start_exe` for a process, the last time -/
  startedBy : ℕ → Option ℕ
  /-- the registers that a process called it with, the last time -/
  saved : ℕ → Registers

/-- The root process is about to run. -/
def ProcessRun.Init (root : ℕ) (r : ProcessRun) : Prop :=
  ∃ s fuel image c, (∀ p, s.processes p = none) ∧ s.firstProcess_ = none ∧
    s.currentProcess_ = none ∧ usermodeTest s fuel root image = .done (c, r.kernel)

/-- A system call returns, or memory changes. -/
inductive ProcessRun.Step : ProcessRun → ProcessRun → Prop where
  /-- a call other than `start_exe`, with an unused address for a new process -/
  | syscall {s s' : Kernel} {startedBy : ℕ → Option ℕ} {saved : ℕ → Registers} {fuel a : ℕ}
      {n : SyscallNumber} {regs : Registers} {name : String} {image : Image} {c : Control} :
      n ≠ .startExe → s.processes a = none →
        s.syscallHandler fuel a n regs name image = .done (c, s') →
          Step ⟨s, startedBy, saved⟩ ⟨s', startedBy, saved⟩
  /-- the current process starts the one that it has a handle of -/
  | startExe {s s' : Kernel} {startedBy : ℕ → Option ℕ} {saved : ℕ → Registers} {fuel a p q : ℕ}
      {regs : Registers} {name : String} {image : Image} {c : Control} {proc : UserProcess} :
      s.currentProcess_ = some p → s.processes p = some proc →
        proc.objectGet regs.rdx = .done (.process q) →
          s.syscallHandler fuel a .startExe regs name image = .done (c, s') →
            Step ⟨s, startedBy, saved⟩ ⟨s', Function.update startedBy q (some p),
              Function.update saved p { regs with rax := 0 }⟩
  /-- memory changes -/
  | memory {s : Kernel} {startedBy : ℕ → Option ℕ} {saved : ℕ → Registers}
      {k : KernelMemoryManager} :
      Step ⟨s, startedBy, saved⟩ ⟨{ s with memory := k }, startedBy, saved⟩

/-- The states of all runs. -/
abbrev ProcessRun.Reachable (root : ℕ) : ProcessRun → Prop := Reach (Init root) Step

/-- `exit` resumes the process `rest` starts with, or the original context. -/
def ExitsTo (r : ProcessRun) (rest : List ℕ) : Prop :=
  ∀ a regs name image, ∃ s', Computes
      (fun fuel => r.kernel.syscallHandler fuel a .exit regs name image)
      ((rest.head?.map fun q => Control.user (r.saved q)).getD .original, s') ∧
    s'.currentProcess_ = rest.head? ∧ ∀ q, s'.Running q ↔ q ∈ rest

/-- **The running processes are nested.** -/
structure WellNested (root : ℕ) (r : ProcessRun) (chain : List ℕ) : Prop where
  /-- they are those of the chain -/
  running : ∀ p, r.kernel.Running p ↔ p ∈ chain
  /-- each of them once -/
  nodup : chain.Nodup
  /-- which starts with the current one -/
  current : r.kernel.currentProcess_ = chain.head?
  /-- and ends with the root -/
  root : ∀ p, chain.getLast? = some p → p = root
  /-- each process was started by the next one -/
  started : chain.IsChain fun q p => r.startedBy q = some p
  /-- which goes on when it exits -/
  exits : ∀ p rest, chain = p :: rest → ExitsTo r rest
  /-- the destructors that closing a handle runs find no other process running -/
  destroys : ∀ p proc handle obj s' q, r.kernel.currentProcess_ = some p →
    r.kernel.processes p = some proc → proc.objectGet handle = .done obj →
      Enters r.kernel obj s' q → Destroyable s' q

/-- What holds in every run, for the list of all processes and the chain of the
running ones. -/
structure Nested (root : ℕ) (r : ProcessRun) (l chain : List ℕ) : Prop where
  /-- the processes are a forest and a list -/
  forest : Forest ∅ r.kernel l
  /-- the running ones, in the order of the list -/
  filter : l.filter r.kernel.running = chain
  /-- start with the current one -/
  current : r.kernel.currentProcess_ = chain.head?
  /-- end with the root -/
  last : ∀ p, chain.getLast? = some p → p = root
  /-- and each is owned and was started by the next one -/
  started : chain.IsChain fun q p => r.startedBy q = some p ∧ ∃ i, r.kernel.Owns p i q
  /-- those that wait have saved their registers -/
  saved : ∀ p ∈ chain.tail, ∃ c, r.kernel.status p = some c ∧ c.context_ = r.saved p
  /-- the root exists -/
  rootMem : root ∈ l
  /-- and is not owned -/
  rootUnowned : ∀ p i, ¬ r.kernel.Owns p i root
  /-- no process owns an older one -/
  older : l.Pairwise fun a b => ∀ i, ¬ r.kernel.Owns a i b

variable {root p q a i n fuel : ℕ} {r r' : ProcessRun} {s s' s₁ : Kernel} {l l' chain rest : List ℕ}
  {startedBy : ℕ → Option ℕ} {saved : ℕ → Registers} {proc : UserProcess} {obj : KernelObject}
  {handle : Word} {regs : Registers} {image : Image} {c : Status}

theorem running_iff : s.running p = true ↔ s.Running p := by
  rw [running, Running, status]
  cases s.processes p <;> simp [UserProcess.status]

/-! ## The chain -/

/-- Of a chain, each element is the last one or related to one behind it. -/
theorem mem_chain {R : ℕ → ℕ → Prop} (h : chain.IsChain R) (hq : q ∈ chain) :
    chain.getLast? = some q ∨ ∃ p ∈ chain.tail, R q p := by
  induction chain with
  | nil => cases hq
  | cons a rest ih =>
    cases rest with
    | nil =>
      obtain rfl := List.mem_singleton.mp hq
      exact .inl rfl
    | cons b rest =>
      obtain ⟨hab, hrest⟩ := List.isChain_cons_cons.mp h
      rcases List.mem_cons.mp hq with rfl | hq
      · exact .inr ⟨b, List.mem_cons_self .., hab⟩
      · rcases ih hrest hq with hlast | ⟨p, hp, hr⟩
        · exact .inl (by rwa [List.getLast?_cons_cons])
        · exact .inr ⟨p, List.mem_cons_of_mem _ hp, hr⟩

theorem Nested.running (h : Nested root r l chain) : r.kernel.Running p ↔ p ∈ chain := by
  rw [← h.filter, List.mem_filter, running_iff, h.forest.mem]
  constructor
  · rintro ⟨c, hc, hr⟩
    exact ⟨⟨c, hc⟩, c, hc, hr⟩
  · exact fun hp => hp.2

theorem Nested.nodup (h : Nested root r l chain) : chain.Nodup := h.filter ▸ h.forest.nodup.filter _

/-- **The current process owns no running one**: those are owned by a process
further down the chain. -/
theorem Nested.not_running (h : Nested root r l (p :: rest)) (ho : r.kernel.Owns p i q) :
    ¬ r.kernel.Running q := by
  intro hq
  rcases mem_chain h.started (h.running.mp hq) with hlast | ⟨p', hp', -, j, ho'⟩
  · obtain rfl := h.last q hlast
    exact h.rootUnowned p i ho
  · obtain ⟨rfl, -⟩ :=
      h.forest.unique p' j p i q ho' (Set.notMem_empty _) ho (Set.notMem_empty _)
    exact (List.nodup_cons.mp h.nodup).1 hp'

/-! ## Steps that keep the ownership -/

/-- The forest when no object is opened or closed. -/
theorem Forest.restate (h : Forest ∅ s l) (howns : ∀ p i q, s'.Owns p i q ↔ s.Owns p i q)
    (hlive : ∀ p, (∃ c, s'.status p = some c) ↔ ∃ c, s.status p = some c)
    (hnext : s'.next = s.next) (hfirst : s'.firstProcess_ = s.firstProcess_)
    (hidle : ∀ p i q, s.Owns p i q → s'.Running q → s'.Running p)
    (hcurrent : ∀ p, s'.currentProcess_ = some p → s'.Running p) : Forest ∅ s' l where
  chained := hfirst ▸ h.chained.congr fun q _ => by rw [hnext]
  nodup := h.nodup
  mem p := (h.mem p).trans (hlive p).symm
  live p i q ho := h.live p i q ((howns p i q).mp ho)
  unique p i p' i' q ho hv ho' := h.unique p i p' i' q ((howns p i q).mp ho) hv ((howns p' i' q).mp ho')
  idle p i q ho _ := hidle p i q ((howns p i q).mp ho)
  safe p i hm := absurd hm (Set.notMem_empty _)
  current := hcurrent

/-- Memory does not matter. -/
theorem Nested.same (h : Nested root ⟨s, startedBy, saved⟩ l chain) (hsame : Same s s') :
    Nested root ⟨s', startedBy, saved⟩ l chain where
  forest := h.forest.same hsame
  filter := by
    rw [← h.filter]
    refine List.filter_congr fun p _ => ?_
    rw [Bool.eq_iff_iff, running_iff, running_iff]
    exact hsame.running
  current := hsame.currentProcess_.trans h.current
  last := h.last
  started := h.started.imp fun q p hqp => ⟨hqp.1, hqp.2.imp fun i ho => hsame.owns.mpr ho⟩
  saved p hp := by
    rw [hsame.status]
    exact h.saved p hp
  rootMem := h.rootMem
  rootUnowned p i ho := h.rootUnowned p i (hsame.owns.mp ho)
  older := h.older.imp fun hab i ho => hab i (hsame.owns.mp ho)

/-! ## Exit -/

/-- What `switch_from` does. -/
theorem switchFrom_eq_done (hs : s.switchFrom p = .done s') :
    s.Running p ∧ s.currentProcess_ = some p ∧ s' = { s with currentProcess_ := none } := by
  rw [switchFrom] at hs
  obtain ⟨proc, hproc, hs⟩ := Outcome.bind_eq_done.mp hs
  rw [get_eq_done] at hproc
  obtain ⟨hrunning, hs⟩ := Outcome.require_bind_eq_done.mp hs
  obtain ⟨hcurrent, hs⟩ := Outcome.require_bind_eq_done.mp hs
  cases hs
  exact ⟨⟨_, status_of_processes hproc, hrunning⟩, hcurrent, rfl⟩

/-- The system after the current process exited. -/
def exited (s : Kernel) (p : ℕ) (proc : UserProcess) (exitCode : Word) : Kernel :=
  { s with currentProcess_ := none }.set p { proc with exitCode_ := exitCode, state_ := .exited }

theorem exited_status {exitCode : Word} : (s.exited p proc exitCode).status =
    Function.update s.status p (some { proc.status with state_ := .exited }) :=
  status_set { s with currentProcess_ := none } p _

theorem exited_running {exitCode : Word} :
    (s.exited p proc exitCode).Running q ↔ s.Running q ∧ q ≠ p := by
  unfold Running
  rw [exited_status]
  by_cases hq : q = p
  · subst hq
    simp
  · simp [hq]

theorem exited_owns (hproc : s.processes p = some proc) {exitCode : Word} :
    (s.exited p proc exitCode).Owns a i q ↔ s.Owns a i q := by
  unfold Owns
  rw [exited_status]
  by_cases ha : a = p
  · subst ha
    simp [status_of_processes hproc]
  · simp [ha]

/-- **The exit of the current process** leaves the rest of the chain, which is
what the first running process in the list starts. -/
theorem Nested.pop (h : Nested root ⟨s, startedBy, saved⟩ l (p :: rest))
    (hproc : s.processes p = some proc) (exitCode : Word) :
    let s₁ := s.exited p proc exitCode
    Forest ∅ s₁ l ∧ l.filter s₁.running = rest ∧ l.find? s₁.running = rest.head? := by
  intro s₁
  have hstatus := status_of_processes hproc
  have hfilter : l.filter s₁.running = rest := by
    have hp := (List.nodup_cons.mp h.nodup).1
    have hrest : (p :: rest).filter (· ≠ p) = rest := by
      rw [List.filter_cons_of_neg (by simp)]
      exact List.filter_eq_self.mpr fun a ha => by
        simpa using fun heq : a = p => hp (heq ▸ ha)
    rw [← hrest, ← h.filter, List.filter_filter]
    refine List.filter_congr fun q _ => ?_
    rw [Bool.eq_iff_iff, running_iff, exited_running, Bool.and_eq_true, running_iff, and_comm]
    simp
  refine ⟨?_, hfilter, ?_⟩
  · refine h.forest.restate (fun _ _ _ => exited_owns hproc) (fun q => ?_)
      (next_set_self (s := { s with currentProcess_ := none }) hproc rfl) rfl (fun q i r ho hr => ?_)
      (by simp [s₁, Kernel.exited, set])
    · rw [exited_status]
      by_cases hq : q = p
      · subst hq
        simp [hstatus]
      · simp [hq]
    · rw [exited_running] at hr ⊢
      refine ⟨h.forest.idle q i r ho (Set.notMem_empty _) hr.1, ?_⟩
      rintro rfl
      exact h.not_running ho hr.1
  · rw [← hfilter, List.head?_filter]

/-- What `switch_to` does. -/
theorem switchTo_of_running (hproc : s.processes p = some proc) (hr : s.Running p) :
    s.switchTo p = .done (proc.context_, { s with currentProcess_ := some p }) := by
  obtain ⟨c, hc, hstate⟩ := hr
  rw [status_of_processes hproc] at hc
  cases hc
  have hstate : proc.state_ = .running := hstate
  simp [switchTo, setAsCurrent, get_eq_done.mpr hproc, hstate]

/-- What `exit` does after the process has exited. -/
theorem exit_eq {s t u : Kernel} {last : ℕ} {exitCode : Word} {fuel : ℕ} (hcurrent : s.current = .done last)
    (hfrom : s.switchFrom last = .done t) (hexited : t.exitProcess last exitCode = .done u) :
    s.exit fuel exitCode = (u.allProcesses fuel >>= fun all : List ℕ =>
      (all.find? u.running).elim (.done (Control.original, u)) fun next =>
        u.switchTo next >>= fun x => .done (Control.user x.1, x.2)) := by
  rw [Kernel.exit, hcurrent, Outcome.done_bind, hfrom, Outcome.done_bind, hexited, Outcome.done_bind]
  refine congrArg (u.allProcesses fuel).bind (funext fun all => ?_)
  cases all.find? u.running with
  | none => rfl
  | some next => rfl

/-- **`exit` resumes the next process of the chain.** -/
theorem Nested.exit (h : Nested root ⟨s, startedBy, saved⟩ l (p :: rest)) (exitCode : Word) :
    ∃ s', Computes (fun fuel => s.exit fuel exitCode)
        ((rest.head?.map fun q => Control.user (saved q)).getD .original, s') ∧
      Nested root ⟨s', startedBy, saved⟩ l rest := by
  have hcurrent : s.currentProcess_ = some p := h.current
  have hrunning : s.Running p := h.running.mpr (List.mem_cons_self ..)
  obtain ⟨c, hc, hstate⟩ := hrunning
  obtain ⟨proc, hproc, rfl⟩ := processes_of_status hc
  have hstate : proc.state_ = .running := hstate
  obtain ⟨hforest, hfilter, hfind⟩ := h.pop hproc exitCode
  have hstatus : ∀ q ∈ rest, (s.exited p proc exitCode).status q = s.status q := by
    intro q hq
    rw [exited_status, Function.update_of_ne]
    rintro rfl
    exact (List.nodup_cons.mp h.nodup).1 hq
  have hrest : ∀ q ∈ rest, (s.exited p proc exitCode).Running q := fun q hq => by
    rw [← hfilter, List.mem_filter, running_iff] at hq
    exact hq.2
  refine ⟨{ s.exited p proc exitCode with currentProcess_ := rest.head? }, ?_, ?_⟩
  · have hexit : ∀ fuel, s.exit fuel exitCode =
        ((s.exited p proc exitCode).allProcesses fuel >>= fun all : List ℕ =>
          (all.find? (s.exited p proc exitCode).running).elim
            (.done (Control.original, s.exited p proc exitCode)) fun next =>
              (s.exited p proc exitCode).switchTo next >>= fun x => .done (Control.user x.1, x.2)) := by
      intro fuel
      have hswitch : s.switchFrom p = .done { s with currentProcess_ := none } := by
        simp [switchFrom, get_eq_done.mpr hproc, hstate, hcurrent]
      have hget : ({ s with currentProcess_ := none } : Kernel).get p = .done proc :=
        get_eq_done.mpr hproc
      refine exit_eq (by rw [Kernel.current, hcurrent, Outcome.requireSome_some]) hswitch ?_
      rw [exitProcess, hget, Outcome.done_bind, Outcome.require_pos hstate]
      rfl
    simp only [hexit]
    refine hforest.chained.listFrom.bind (g := fun _ all => _) (.of_done fun _ => ?_)
    rw [hfind]
    cases rest with
    | nil => rfl
    | cons q rest =>
      -- the next process has saved its registers
      obtain ⟨c, hc, hsaved⟩ := h.saved q (List.mem_cons_self ..)
      obtain ⟨next, hnext, rfl⟩ := processes_of_status
        ((hstatus q (List.mem_cons_self ..)).trans hc)
      change ((s.exited p proc exitCode).switchTo q >>= _) = _
      rw [switchTo_of_running hnext (hrest q (List.mem_cons_self ..)), Outcome.done_bind]
      exact congrArg (fun regs => Outcome.done (Control.user regs, _)) hsaved
  · refine ⟨hforest.restate (fun _ _ _ => Iff.rfl) (fun _ => Iff.rfl) rfl rfl
      (fun q i r ho => hforest.idle q i r ho (Set.notMem_empty _))
      (fun q hq => hrest q (List.mem_of_mem_head? hq)), hfilter, rfl, fun q hq => ?_,
      (List.isChain_cons.mp h.started).2.imp fun q r hqr =>
        ⟨hqr.1, hqr.2.imp fun i ho => (exited_owns hproc).mpr ho⟩,
      fun q hq => ?_, h.rootMem, fun q i ho => h.rootUnowned q i ((exited_owns hproc).mp ho),
      h.older.imp fun hab i ho => hab i ((exited_owns hproc).mp ho)⟩
    · refine h.last q ?_
      cases rest with
      | nil => cases hq
      | cons b rest => rwa [List.getLast?_cons_cons]
    · have hmem := List.mem_of_mem_tail hq
      obtain ⟨c, hc, hsaved⟩ := h.saved q hmem
      exact ⟨c, (hstatus q hmem).trans hc, hsaved⟩

/-! ## Create -/

/-- What `object_open` does. -/
theorem objectOpen_eq_done (hs : s.objectOpen p obj = .done (handle, s')) :
    ∃ proc i, s.processes p = some proc ∧ i < maxObjects ∧ proc.objects_ i = none ∧
      s' = s.set p { proc with objects_ := Function.update proc.objects_ i (some obj) } := by
  rw [Kernel.objectOpen] at hs
  obtain ⟨proc, hproc, hs⟩ := Outcome.bind_eq_done.mp hs
  rw [get_eq_done] at hproc
  obtain ⟨⟨handle, proc'⟩, hopen, hs⟩ := Outcome.bind_eq_done.mp hs
  cases hs
  rw [UserProcess.objectOpen] at hopen
  cases hfind : (List.range maxObjects).find? fun i => (proc.objects_ i).isNone with
  | none => simp [hfind] at hopen
  | some i =>
    rw [hfind] at hopen
    cases hopen
    have hi := List.mem_range.mp (List.mem_of_find?_eq_some hfind)
    have hnone := List.find?_some hfind
    exact ⟨proc, i, hproc, hi, by simpa using hnone, rfl⟩

/-- **Opening an object**: a process is opened by the current one when it is the
newest, and not open yet. -/
theorem Nested.objectOpen (h : Nested root ⟨s, startedBy, saved⟩ l chain) (hp : s.Running p)
    (hobj : ∀ q, obj = .process q → l.head? = some q ∧ (∀ p i, ¬ s.Owns p i q) ∧ q ≠ root)
    (hs : s.objectOpen p obj = .done (handle, s')) : Nested root ⟨s', startedBy, saved⟩ l chain := by
  obtain ⟨proc, i, hproc, hi, hnone, rfl⟩ := objectOpen_eq_done hs
  have hstatus := status_of_processes hproc
  set s' := s.set p { proc with objects_ := Function.update proc.objects_ i (some obj) } with hs'
  have hstatus' : s'.status = Function.update s.status p
      (some { proc.status with objects_ := Function.update proc.objects_ i (some obj) }) :=
    status_set s p _
  have hrunning : ∀ q, s'.Running q ↔ s.Running q := by
    intro q
    unfold Running
    rw [hstatus']
    by_cases hq : q = p
    · subst hq
      simp [hstatus]
    · simp [hq]
  have howns : ∀ {q j r}, s'.Owns q j r ↔ s.Owns q j r ∨ q = p ∧ j = i ∧ obj = .process r := by
    intro q j r
    unfold Owns
    rw [hstatus']
    by_cases hq : q = p
    · subst hq
      by_cases hj : j = i
      · subst hj
        simp [hstatus, UserProcess.status, hnone, hi]
      · simp [hstatus, UserProcess.status, hj]
    · simp [hq]
  -- the new slot is the only one for its process
  have hnew : ∀ {q j r}, s'.Owns q j r → obj = .process r → q = p ∧ j = i := by
    intro q j r ho heq
    rcases howns.mp ho with ho | ⟨hq, hj, -⟩
    · exact absurd ho ((hobj r heq).2.1 q j)
    · exact ⟨hq, hj⟩
  have hfilter : l.filter s'.running = chain := by
    rw [← h.filter]
    refine List.filter_congr fun q _ => ?_
    rw [Bool.eq_iff_iff, running_iff, running_iff]
    exact hrunning q
  refine ⟨⟨h.forest.chained.congr fun q _ => congrFun (next_set_self hproc (by rfl)) q,
    h.forest.nodup, fun q => ?_, fun q j r ho _ => ?_, fun p₁ i₁ p₂ i₂ q ho₁ _ ho₂ _ => ?_,
    fun q j r ho _ hr => ?_, fun _ _ hm => absurd hm (Set.notMem_empty _), fun q hq => ?_⟩, hfilter,
    h.current, h.last, h.started.imp fun q p hqp => ⟨hqp.1, hqp.2.imp fun i ho => howns.mpr (.inl ho)⟩,
    fun q hq => ?_, h.rootMem, fun q j ho => ?_, ?_⟩
  · rw [h.forest.mem q, hstatus']
    by_cases hq : q = p
    · subst hq
      simp [hstatus]
    · simp [hq]
  · rcases howns.mp ho with ho | ⟨-, -, heq⟩
    · exact h.forest.live q j r ho (Set.notMem_empty _)
    · exact List.mem_of_mem_head? (hobj r heq).1
  · by_cases heq : obj = .process q
    · obtain ⟨rfl, rfl⟩ := hnew ho₁ heq
      obtain ⟨rfl, rfl⟩ := hnew ho₂ heq
      exact ⟨rfl, rfl⟩
    · have hold : ∀ {x j}, s'.Owns x j q → s.Owns x j q := fun ho =>
        (howns.mp ho).resolve_right fun hn => heq hn.2.2
      exact h.forest.unique p₁ i₁ p₂ i₂ q (hold ho₁) (Set.notMem_empty _) (hold ho₂)
        (Set.notMem_empty _)
  · rcases howns.mp ho with ho | ⟨rfl, -, -⟩
    · exact (hrunning q).mpr (h.forest.idle q j r ho (Set.notMem_empty _) ((hrunning r).mp hr))
    · exact (hrunning q).mpr hp
  · exact (hrunning q).mpr (h.forest.current q hq)
  · obtain ⟨c, hc, hsaved⟩ := h.saved q hq
    change ∃ c, s'.status q = some c ∧ _
    rw [hstatus']
    by_cases hqp : q = p
    · subst hqp
      rw [hstatus] at hc
      cases hc
      exact ⟨_, Function.update_self .., hsaved⟩
    · exact ⟨c, (Function.update_of_ne hqp ..).trans hc, hsaved⟩
  · rcases howns.mp ho with ho | ⟨-, -, heq⟩
    · exact h.rootUnowned q j ho
    · exact (hobj root heq).2.2 rfl
  · -- the new one is the first of the list
    have holder := h.older
    have hnodup := h.forest.nodup
    have hhead := fun q hq => (hobj q hq).1
    change l.Pairwise fun a b => ∀ i, ¬ s'.Owns a i b
    cases l with
    | nil => exact List.Pairwise.nil
    | cons b l =>
      obtain ⟨hb, hl⟩ := List.pairwise_cons.mp holder
      have hold : ∀ {x j r}, r ∈ l → s'.Owns x j r → s.Owns x j r := by
        intro x j r hr ho
        refine (howns.mp ho).resolve_right fun hn => ?_
        obtain rfl := Option.some.inj (hhead r hn.2.2)
        exact (List.nodup_cons.mp hnodup).1 hr
      refine List.pairwise_cons.mpr ⟨fun r hr j ho => hb r hr j (hold hr ho), ?_⟩
      exact hl.imp_of_mem fun _ hr hab j ho => hab j (hold hr ho)

/-- **A new process** is the first of the list. -/
theorem Nested.newProcess (h : Nested root ⟨s, startedBy, saved⟩ l chain)
    (ha : s.processes a = none) (hs : s.newProcess a = .done s') :
    Nested root ⟨s', startedBy, saved⟩ (a :: l) chain ∧ (∀ p i, ¬ s'.Owns p i a) ∧ a ≠ root ∧
      ∀ p, s.Running p → s'.Running p := by
  rw [Kernel.newProcess] at hs
  obtain ⟨⟨page, mm, k⟩, -, hs⟩ := Outcome.bind_eq_done.mp hs
  cases hs
  set s' : Kernel := { s.set a (UserProcess.new page mm s.firstProcess_) with
    memory := k
    firstProcess_ := some a } with hs'
  have hstatus : s'.status = Function.update s.status a
      (some ⟨.created, Registers.zero, fun _ => none⟩) := status_set s a _
  have hnext : s'.next = Function.update s.next a (some s.firstProcess_) := next_set s a _
  have hdead : s.status a = none := by
    rw [status, ha]
    rfl
  have hmem : a ∉ l := fun hm => by
    obtain ⟨c, hc⟩ := (h.forest.mem a).mp hm
    have hc : s.status a = some c := hc
    rw [hdead] at hc
    cases hc
  have hne : ∀ {q}, q ∈ l → q ≠ a := fun hq heq => hmem (heq ▸ hq)
  have hrunning : ∀ q, s'.Running q ↔ s.Running q := by
    intro q
    unfold Running
    rw [hstatus]
    by_cases hq : q = a
    · subst hq
      simp [hdead]
    · simp [hq]
  have howns : ∀ {q j r}, s'.Owns q j r ↔ s.Owns q j r := by
    intro q j r
    unfold Owns
    rw [hstatus]
    by_cases hq : q = a
    · subst hq
      simp [hdead]
    · simp [hq]
  have hlive : ∀ {q j r}, s.Owns q j r → r ∈ l := fun ho =>
    h.forest.live _ _ _ ho (Set.notMem_empty _)
  refine ⟨⟨⟨⟨rfl, s.firstProcess_, by simp [hnext], h.forest.chained.congr fun q hq => ?_⟩,
    List.nodup_cons.mpr ⟨hmem, h.forest.nodup⟩, fun q => ?_,
    fun q j r ho _ => List.mem_cons_of_mem _ (hlive (howns.mp ho)),
    fun p₁ i₁ p₂ i₂ q ho₁ hv₁ ho₂ hv₂ =>
      h.forest.unique p₁ i₁ p₂ i₂ q (howns.mp ho₁) hv₁ (howns.mp ho₂) hv₂,
    fun q j r ho hv hr => (hrunning q).mpr (h.forest.idle q j r (howns.mp ho) hv ((hrunning r).mp hr)),
    fun _ _ hm => absurd hm (Set.notMem_empty _),
    fun q hq => (hrunning q).mpr (h.forest.current q hq)⟩, ?_, h.current, h.last,
    h.started.imp fun q p hqp => ⟨hqp.1, hqp.2.imp fun i ho => howns.mpr ho⟩, fun q hq => ?_,
    List.mem_cons_of_mem _ h.rootMem, fun q j ho => h.rootUnowned q j (howns.mp ho), ?_⟩,
    fun q j ho => hmem (hlive (howns.mp ho)), (hne h.rootMem).symm, fun q => (hrunning q).mpr⟩
  · change s'.next q = s.next q
    rw [hnext, Function.update_of_ne (hne hq)]
  · rw [List.mem_cons, h.forest.mem q, hstatus]
    by_cases hq : q = a
    · subst hq
      simp
    · simp [hq]
  · have ha' : ¬ s'.running a = true := by
      rw [running_iff, hrunning]
      rintro ⟨c, hc, -⟩
      rw [hdead] at hc
      cases hc
    change (a :: l).filter s'.running = chain
    rw [List.filter_cons_of_neg ha', ← h.filter]
    refine List.filter_congr fun q _ => ?_
    rw [Bool.eq_iff_iff, running_iff, running_iff]
    exact hrunning q
  · obtain ⟨c, hc, hsaved⟩ := h.saved q hq
    refine ⟨c, ?_, hsaved⟩
    change s'.status q = some c
    rw [hstatus, Function.update_of_ne, hc]
    rintro rfl
    have hc : s.status q = some c := hc
    rw [hdead] at hc
    cases hc
  · refine List.pairwise_cons.mpr ⟨fun q _ j ho => ?_, h.older.imp fun hab j ho =>
      hab j (howns.mp ho)⟩
    obtain ⟨c, hc, -⟩ := howns.mp ho
    rw [hdead] at hc
    cases hc

/-- A window is mapped. -/
theorem newMemMap_eq_done {w : MemMapHelper} {phys length : Word} {type : MemoryType}
    (hs : s.newMemMap fuel p phys length type = .done (w, s')) : Same s s' := by
  rw [newMemMap] at hs
  obtain ⟨proc, hproc, hs⟩ := Outcome.bind_eq_done.mp hs
  rw [get_eq_done] at hproc
  obtain ⟨⟨virt, mm, k⟩, -, hs⟩ := Outcome.bind_eq_done.mp hs
  cases hs
  exact ⟨status_set_self hproc rfl, next_set_self hproc rfl, rfl, rfl⟩

/-- **`create` keeps the chain.** -/
theorem Nested.create {name : String} (h : Nested root ⟨s, startedBy, saved⟩ l chain)
    (ha : s.processes a = none) (hs : s.create fuel a name = .done (handle, s')) :
    ∃ l', Nested root ⟨s', startedBy, saved⟩ l' chain := by
  rw [Kernel.create] at hs
  obtain ⟨p, hcurrent, hs⟩ := Outcome.bind_eq_done.mp hs
  have hp : s.Running p := h.forest.current p (Outcome.requireSome_eq_done.mp hcurrent)
  have hother : ∀ obj, (∀ q, obj ≠ .process q) → ∀ q, obj = KernelObject.process q →
      l.head? = some q ∧ (∀ p i, ¬ s.Owns p i q) ∧ q ≠ root :=
    fun obj hobj q hq => absurd hq (hobj q)
  split_ifs at hs
  · obtain ⟨-, hs⟩ := Outcome.require_bind_eq_done.mp hs
    exact ⟨l, h.objectOpen hp (hother _ (by simp)) hs⟩
  · exact ⟨l, h.objectOpen hp (hother _ (by simp)) hs⟩
  · obtain ⟨s₁, hnew, hs⟩ := Outcome.bind_eq_done.mp hs
    obtain ⟨h₁, hunowned, hroot, hrunning⟩ := h.newProcess ha hnew
    refine ⟨a :: l, h₁.objectOpen (hrunning p hp) (fun q hq => ?_) hs⟩
    obtain rfl := KernelObject.process.inj hq
    exact ⟨rfl, hunowned, hroot⟩
  · obtain ⟨-, hs⟩ := Outcome.require_bind_eq_done.mp hs
    obtain ⟨⟨w, s₁⟩, hmap, hs⟩ := Outcome.bind_eq_done.mp hs
    have hsame := newMemMap_eq_done hmap
    exact ⟨l, (h.same hsame).objectOpen (hsame.running.mpr hp) (by simp) hs⟩

/-! ## Destroy -/

/-- The handle of a process that is closed, as a slot. -/
theorem handleValid_slot (h : proc.HandleValid handle) : handle.toNat - 1 < maxObjects := by
  obtain ⟨h₁, h₂, -⟩ := h
  omega

/-- **`destroy` keeps the chain**: what it destroys does not run. -/
theorem Nested.destroy (h : Nested root ⟨s, startedBy, saved⟩ l chain)
    (hs : s.destroy fuel handle = .done s') :
    ∃ l', Nested root ⟨s', startedBy, saved⟩ l' chain := by
  rw [Kernel.destroy] at hs
  obtain ⟨p, hcurrent, hs⟩ := Outcome.bind_eq_done.mp hs
  obtain ⟨proc, hproc, hs⟩ := Outcome.bind_eq_done.mp hs
  rw [get_eq_done] at hproc
  obtain ⟨hvalid, hs⟩ := Outcome.require_bind_eq_done.mp hs
  have hcurrent : s.currentProcess_ = some p := Outcome.requireSome_eq_done.mp hcurrent
  obtain ⟨rest, rfl⟩ := List.head?_eq_some_iff.mp (h.current.symm.trans hcurrent)
  have hp : s.Running p := h.forest.current p hcurrent
  obtain ⟨l', hr⟩ := resetObject_spec (destroyObject_spec fuel) h.forest (.inl hp)
    (handleValid_slot hvalid) (Set.notMem_empty _) (fun q ho => h.not_running ho) hs
  -- running processes stay
  have hstays : ∀ q, s.Running q → q ∈ l' := fun q hq => by
    refine hr.stays q (.inl hq) ((h.forest.mem q).mpr ?_)
    obtain ⟨c, hc, -⟩ := hq
    exact ⟨c, hc⟩
  have howns : ∀ {q x j}, s.Running q → s.Owns x j q → s'.Owns x j q := by
    intro q x j hq ho
    have hx : s.Running x := h.forest.idle x j q ho (Set.notMem_empty _) hq
    have hmem := hstays x hx
    by_cases hxp : x = p
    · subst hxp
      have hj : j ≠ handle.toNat - 1 := by
        rintro rfl
        exact h.not_running ho hq
      obtain ⟨c, hc, hself⟩ := hr.self
      obtain ⟨c', hc', hlt, hslot⟩ := ho
      rw [hc] at hc'
      cases hc'
      exact ⟨_, hself, hlt, (Function.update_of_ne hj ..).trans hslot⟩
    · obtain ⟨c, hc⟩ := (hr.forest.mem x).mp hmem
      obtain ⟨c', hc', hlt, hslot⟩ := ho
      have hsame := hr.status x hxp c hc
      rw [hc'] at hsame
      cases hsame
      exact ⟨c, hc, hlt, hslot⟩
  have hrun : ∀ {q}, q ∈ p :: rest → s.Running q := fun hq => h.running.mpr hq
  refine ⟨l', hr.forest, ?_, hr.current.trans h.current, h.last, ?_, fun q hq => ?_,
    hr.stays root (.inr fun x j ho => absurd ho (h.rootUnowned x j)) h.rootMem,
    fun x j ho => h.rootUnowned x j (hr.owns ho),
    (h.older.sublist hr.sublist).imp fun hab i ho => hab i (hr.owns ho)⟩
  · -- the running ones are the same, in the same order
    have hsub : l'.filter s'.running = l'.filter s.running := by
      refine List.filter_congr fun q hq => ?_
      rw [Bool.eq_iff_iff, running_iff, running_iff]
      exact hr.running hq
    have hle : (p :: rest).length ≤ (l'.filter s.running).length := by
      refine (List.Nodup.subperm h.nodup fun q hq => ?_).length_le
      exact List.mem_filter.mpr ⟨hstays q (hrun hq), running_iff.mpr (hrun hq)⟩
    have hsublist : (l'.filter s.running).Sublist (p :: rest) := by
      rw [← h.filter]
      exact hr.sublist.filter _
    exact hsub.trans (hsublist.eq_of_length_le hle)
  · refine h.started.imp_of_mem_imp fun q x hq _ hqx => ?_
    exact ⟨hqx.1, hqx.2.imp fun i ho => howns (hrun hq) ho⟩
  · have hq' : q ∈ rest := hq
    have hqp : q ≠ p := fun heq => (List.nodup_cons.mp h.nodup).1 (heq ▸ hq')
    obtain ⟨c, hc, hsaved⟩ := h.saved q hq
    obtain ⟨c', hc'⟩ := (hr.forest.mem q).mp (hstays q (hrun (List.mem_cons_of_mem _ hq')))
    have hsame := hr.status q hqp c' hc'
    have hc : s.status q = some c := hc
    rw [hc] at hsame
    cases hsame
    exact ⟨c, hc', hsaved⟩

/-! ## Start -/

/-- Loading an image keeps the life of the process, but for its registers. -/
theorem allocAndMapUserExe_status {k k' : KernelMemoryManager} {proc' : UserProcess}
    (hs : k.allocAndMapUserExe proc fuel image = .done (proc', k')) :
    proc.state_ = .created ∧ proc'.state_ = .created ∧ proc'.objects_ = proc.objects_ ∧
      proc'.next_ = proc.next_ := by
  -- a section keeps all of it
  have hstep : ∀ {k k' : KernelMemoryManager} {proc proc' : UserProcess} {virt : Word}
      {virtSize srcSize : ℕ} {type : MemoryType} {source : Image},
      k.allocAndCopySection proc fuel virt virtSize type source srcSize = .done (proc', k') →
        proc.state_ = .created ∧ proc'.state_ = proc.state_ ∧ proc'.objects_ = proc.objects_ ∧
          proc'.next_ = proc.next_ := by
    intro k k' proc proc' virt virtSize srcSize type source hs
    obtain ⟨b, k₁, k₂, ret, mm', -, -, -, -, hstate, rfl⟩ := allocAndCopySection_eq_done hs
    exact ⟨hstate, rfl, rfl, rfl⟩
  have hloop : ∀ {sections : List SectionHeader} {k k' : KernelMemoryManager}
      {proc proc' : UserProcess},
      KernelMemoryManager.mapSections fuel image sections proc k = .done (proc', k') →
        proc'.state_ = proc.state_ ∧ proc'.objects_ = proc.objects_ ∧ proc'.next_ = proc.next_ := by
    intro sections
    induction sections with
    | nil =>
      intro k k' proc proc' hs
      cases hs
      exact ⟨rfl, rfl, rfl⟩
    | cons header sections ih =>
      intro k k' proc proc' hs
      rw [KernelMemoryManager.mapSections] at hs
      obtain ⟨⟨proc₁, k₁⟩, hfirst, hs⟩ := Outcome.bind_eq_done.mp hs
      obtain ⟨-, hstate, hobjects, hnext⟩ := hstep hfirst
      obtain ⟨hstate', hobjects', hnext'⟩ := ih hs
      exact ⟨hstate'.trans hstate, hobjects'.trans hobjects, hnext'.trans hnext⟩
  rw [KernelMemoryManager.allocAndMapUserExe] at hs
  obtain ⟨-, hs⟩ := Outcome.require_bind_eq_done.mp hs
  obtain ⟨⟨proc₁, k₁⟩, hheaders, hs⟩ := Outcome.bind_eq_done.mp hs
  obtain ⟨⟨proc₂, k₂⟩, hsections, hs⟩ := Outcome.bind_eq_done.mp hs
  obtain ⟨-, hs⟩ := Outcome.require_bind_eq_done.mp hs
  obtain ⟨⟨proc₃, k₃⟩, hstack, hs⟩ := Outcome.bind_eq_done.mp hs
  obtain ⟨hcreated, hs⟩ := Outcome.require_bind_eq_done.mp hs
  obtain ⟨-, hs⟩ := Outcome.require_bind_eq_done.mp hs
  obtain ⟨-, hs⟩ := Outcome.require_bind_eq_done.mp hs
  cases hs
  obtain ⟨hstate, -, hobjects₁, hnext₁⟩ := hstep hheaders
  obtain ⟨-, hobjects₂, hnext₂⟩ := hloop hsections
  obtain ⟨-, -, hobjects₃, hnext₃⟩ := hstep hstack
  exact ⟨hstate, hcreated, hobjects₃.trans (hobjects₂.trans hobjects₁),
    hnext₃.trans (hnext₂.trans hnext₁)⟩

/-- What `alloc_and_map_user_exe` does to the processes. -/
theorem load_eq_done (hs : s.load fuel q image = .done s') :
    ∃ child context, s.processes q = some child ∧ child.state_ = .created ∧
      s'.status = Function.update s.status q (some ⟨.created, context, child.objects_⟩) ∧
      s'.next = s.next ∧ s'.currentProcess_ = s.currentProcess_ ∧
      s'.firstProcess_ = s.firstProcess_ := by
  rw [load] at hs
  obtain ⟨child, hchild, hs⟩ := Outcome.bind_eq_done.mp hs
  rw [get_eq_done] at hchild
  obtain ⟨⟨child', k⟩, hload, hs⟩ := Outcome.bind_eq_done.mp hs
  cases hs
  obtain ⟨hcreated, hcreated', hobjects, hnext⟩ := allocAndMapUserExe_status hload
  refine ⟨child, child'.context_, hchild, hcreated, ?_, next_set_self hchild hnext, rfl, rfl⟩
  refine (status_set s q child').trans ?_
  rw [UserProcess.status, hcreated', hobjects]

/-- What `start` does. -/
theorem start_eq_done (hs : s.start q = .done s') :
    ∃ child, s.processes q = some child ∧ child.state_ = .created ∧
      s'.status = Function.update s.status q (some { child.status with state_ := .running }) ∧
      s'.next = s.next ∧ s'.currentProcess_ = s.currentProcess_ ∧
      s'.firstProcess_ = s.firstProcess_ := by
  rw [start] at hs
  obtain ⟨child, hchild, hs⟩ := Outcome.bind_eq_done.mp hs
  rw [get_eq_done] at hchild
  obtain ⟨hcreated, hs⟩ := Outcome.require_bind_eq_done.mp hs
  cases hs
  exact ⟨child, hchild, hcreated, status_set s q _, next_set_self hchild rfl, rfl, rfl⟩

/-- What `set_as_current` does. -/
theorem setAsCurrent_eq_done (hs : s.setAsCurrent q = .done s') :
    s' = { s with currentProcess_ := some q } := by
  rw [setAsCurrent] at hs
  obtain ⟨proc, -, hs⟩ := Outcome.bind_eq_done.mp hs
  obtain ⟨-, hs⟩ := Outcome.require_bind_eq_done.mp hs
  cases hs
  rfl

/-- What `start_exe` does: the caller saves its registers, and the process of the
handle runs. -/
structure Starts (s : Kernel) (regs : Registers) (p q : ℕ) (s' : Kernel) : Prop where
  /-- the caller is not the process -/
  ne : q ≠ p
  /-- the process had not run -/
  created : ∃ c context, s.status q = some c ∧ c.state_ = .created ∧
    s'.status q = some ⟨.running, context, c.objects_⟩
  /-- the caller waits -/
  caller : ∃ c, s.status p = some c ∧ s'.status p = some { c with context_ := regs }
  /-- other processes stay -/
  other : ∀ x, x ≠ p → x ≠ q → s'.status x = s.status x
  /-- so does the list -/
  next : s'.next = s.next
  /-- with its start -/
  first : s'.firstProcess_ = s.firstProcess_
  /-- and the process is current -/
  current : s'.currentProcess_ = some q

theorem startExe_eq_done {regs' : Registers} (hcurrent : s.currentProcess_ = some p)
    (hproc : s.processes p = some proc) (hp : s.Running p)
    (hobj : proc.objectGet regs.rdx = .done (.process q))
    (hs : s.startExe fuel regs image = .done (regs', s')) : Starts s regs p q s' := by
  rw [startExe] at hs
  rw [Kernel.current, hcurrent, Outcome.requireSome_some, Outcome.done_bind, get_eq_done.mpr hproc,
    Outcome.done_bind, hobj, Outcome.done_bind] at hs
  obtain ⟨q', hq, hs⟩ := Outcome.bind_eq_done.mp hs
  cases hq
  obtain ⟨s₁, hload, hs⟩ := Outcome.bind_eq_done.mp hs
  obtain ⟨child, context, hchild, hcreated, hstatus₁, hnext₁, -, hfirst₁⟩ := load_eq_done hload
  have hne : q ≠ p := by
    rintro rfl
    obtain ⟨c, hc, hr⟩ := hp
    rw [status_of_processes hchild] at hc
    cases hc
    rw [show child.status.state_ = .created from hcreated] at hr
    cases hr
  obtain ⟨proc₁, hproc₁, hs⟩ := Outcome.bind_eq_done.mp hs
  rw [get_eq_done] at hproc₁
  obtain ⟨-, hs⟩ := Outcome.require_bind_eq_done.mp hs
  obtain ⟨s₂, hfrom, hs⟩ := Outcome.bind_eq_done.mp hs
  obtain ⟨-, -, rfl⟩ := switchFrom_eq_done hfrom
  obtain ⟨s₃, hstart, hs⟩ := Outcome.bind_eq_done.mp hs
  obtain ⟨child₂, hchild₂, -, hstatus₃, hnext₃, -, hfirst₃⟩ := start_eq_done hstart
  rw [switchTo] at hs
  obtain ⟨child₃, -, hs⟩ := Outcome.bind_eq_done.mp hs
  obtain ⟨-, hs⟩ := Outcome.require_bind_eq_done.mp hs
  obtain ⟨s₄, hset, hs⟩ := Outcome.bind_eq_done.mp hs
  cases hs
  obtain rfl := setAsCurrent_eq_done hset
  -- the status of each process along the way
  have hstatus₂ : ({ s₁.set p { proc₁ with context_ := regs } with
      currentProcess_ := none } : Kernel).status =
        Function.update s₁.status p (some { proc₁.status with context_ := regs }) :=
    status_set s₁ p _
  have hp₁ : s₁.status p = s.status p := by rw [hstatus₁, Function.update_of_ne hne.symm]
  have hchild₂ := status_of_processes hchild₂
  rw [hstatus₂, Function.update_of_ne hne, hstatus₁, Function.update_self] at hchild₂
  have hstatus : ∀ x, s₃.status x = if x = q then some { child₂.status with state_ := .running }
      else if x = p then some { proc₁.status with context_ := regs } else s.status x := by
    intro x
    rw [hstatus₃, hstatus₂]
    by_cases hxq : x = q
    · simp [hxq]
    · by_cases hxp : x = p
      · simp [hxp, hne.symm]
      · simp [hxq, hxp, hstatus₁]
  have hcaller := status_of_processes hproc₁
  rw [hp₁] at hcaller
  refine ⟨hne, ⟨_, context, status_of_processes hchild, hcreated, ?_⟩, ⟨_, hcaller, ?_⟩,
    fun x hxp hxq => ?_, ?_, hfirst₃.trans hfirst₁, rfl⟩
  · rw [← Option.some.inj hchild₂] at hstatus
    exact (hstatus q).trans (if_pos rfl)
  · exact (hstatus p).trans ((if_neg hne.symm).trans (if_pos rfl))
  · exact (hstatus x).trans ((if_neg hxq).trans (if_neg hxp))
  · have hkeep : (s₁.set p { proc₁ with context_ := regs }).next = s₁.next :=
      next_set_self hproc₁ rfl
    exact hnext₃.trans (hkeep.trans hnext₁)

theorem Starts.owns (h : Starts s regs p q s') {x y : ℕ} : s'.Owns x i y ↔ s.Owns x i y := by
  obtain ⟨c, context, hc, -, hc'⟩ := h.created
  obtain ⟨d, hd, hd'⟩ := h.caller
  unfold Owns
  by_cases hxq : x = q
  · subst hxq
    simp [hc, hc']
  · by_cases hxp : x = p
    · subst hxp
      simp [hd, hd']
    · rw [h.other x hxp hxq]

theorem Starts.running (h : Starts s regs p q s') {x : ℕ} :
    s'.Running x ↔ s.Running x ∨ x = q := by
  obtain ⟨c, context, hc, hcreated, hc'⟩ := h.created
  obtain ⟨d, hd, hd'⟩ := h.caller
  unfold Running
  by_cases hxq : x = q
  · subst hxq
    simp [hc']
  · by_cases hxp : x = p
    · subst hxp
      simp [hd, hd', hxq]
    · simp [h.other x hxp hxq, hxq]

/-- **`start_exe` adds a process to the chain**: it is newer than its owner, so
newer than all running ones. -/
theorem Nested.startExe (h : Nested root ⟨s, startedBy, saved⟩ l chain)
    (hcurrent : s.currentProcess_ = some p) (ho : s.Owns p i q) (hs : Starts s regs p q s') :
    Nested root ⟨s', Function.update startedBy q (some p), Function.update saved p regs⟩ l
      (q :: chain) := by
  obtain ⟨rest, rfl⟩ := List.head?_eq_some_iff.mp (h.current.symm.trans hcurrent)
  have hp : s.Running p := h.forest.current p hcurrent
  have hq : ¬ s.Running q := h.not_running ho
  have hqmem : q ∈ l := h.forest.live p i q ho (Set.notMem_empty _)
  have hrun : ∀ {x}, x ∈ p :: rest → s.Running x := fun hx => h.running.mpr hx
  have hne : ∀ {x}, x ∈ p :: rest → x ≠ q := fun hx heq => hq (heq ▸ hrun hx)
  have hlive : ∀ x, (∃ c, s'.status x = some c) ↔ ∃ c, s.status x = some c := by
    intro x
    obtain ⟨c, context, hc, -, hc'⟩ := hs.created
    obtain ⟨d, hd, hd'⟩ := hs.caller
    by_cases hxq : x = q
    · subst hxq
      simp [hc, hc']
    · by_cases hxp : x = p
      · subst hxp
        simp [hd, hd']
      · rw [hs.other x hxp hxq]
  refine ⟨h.forest.restate (fun _ _ _ => hs.owns) hlive hs.next hs.first (fun x j y hxy hy => ?_)
    (fun x hx => ?_), ?_, hs.current, fun x hx => h.last x ?_, ?_, fun x hx => ?_, h.rootMem,
    fun x j hx => h.rootUnowned x j (hs.owns.mp hx), h.older.imp fun hab j hj => hab j (hs.owns.mp hj)⟩
  · rw [hs.running] at hy ⊢
    rcases hy with hy | rfl
    · exact .inl (h.forest.idle x j y hxy (Set.notMem_empty _) hy)
    · obtain ⟨rfl, -⟩ :=
        h.forest.unique x j p i y hxy (Set.notMem_empty _) ho (Set.notMem_empty _)
      exact .inl hp
  · rw [hs.current] at hx
    exact hs.running.mpr (.inr (Option.some.inj hx).symm)
  · -- the process is in front of its owner, the first running one
    obtain ⟨front, back, hl⟩ := List.append_of_mem hqmem
    have holder := h.older
    have hnodup := h.forest.nodup
    have hfilter := h.filter
    change l.filter s'.running = q :: p :: rest
    rw [hl] at holder hnodup hfilter ⊢
    have hfront : front.filter s.running = [] := by
      cases hf : front.filter s.running with
      | nil => rfl
      | cons x xs =>
        rw [List.filter_append, hf] at hfilter
        obtain rfl : x = p := (List.cons.inj hfilter).1
        have hx : x ∈ front := List.mem_of_mem_filter (hf ▸ List.mem_cons_self ..)
        exact absurd ho ((List.pairwise_append.mp holder).2.2 x hx q (List.mem_cons_self ..) i)
    have hcongr : ∀ xs : List ℕ, q ∉ xs → xs.filter s'.running = xs.filter s.running := by
      intro xs hxs
      refine List.filter_congr fun x hx => ?_
      have hxq : x ≠ q := fun heq => hxs (heq ▸ hx)
      rw [Bool.eq_iff_iff, running_iff, running_iff, hs.running]
      exact or_iff_left hxq
    have hqfront : q ∉ front := fun hm =>
      (List.disjoint_of_nodup_append hnodup) hm (List.mem_cons_self ..)
    have hqback : q ∉ back := (List.nodup_cons.mp hnodup.of_append_right).1
    rw [List.filter_append, hfront, List.nil_append,
      List.filter_cons_of_neg (mt running_iff.mp hq)] at hfilter
    rw [List.filter_append, hcongr front hqfront, hfront, List.nil_append,
      List.filter_cons_of_pos (running_iff.mpr (hs.running.mpr (.inr rfl))), hcongr back hqback]
    exact congrArg (q :: ·) hfilter
  · rwa [List.getLast?_cons_cons] at hx
  · refine List.isChain_cons_cons.mpr ⟨⟨Function.update_self .., i, hs.owns.mpr ho⟩, ?_⟩
    refine h.started.imp_of_mem_imp fun x y hx _ hxy => ⟨?_, hxy.2.imp fun j hj => hs.owns.mpr hj⟩
    exact (Function.update_of_ne (hne hx) ..).trans hxy.1
  · -- the caller has saved its registers, and the others have them saved
    have hx : x ∈ p :: rest := hx
    by_cases hxp : x = p
    · subst hxp
      obtain ⟨d, -, hd'⟩ := hs.caller
      exact ⟨_, hd', (Function.update_self x regs saved).symm⟩
    · have hx' : x ∈ rest := (List.mem_cons.mp hx).resolve_left hxp
      obtain ⟨c, hc, hsaved⟩ := h.saved x hx'
      refine ⟨c, (hs.other x hxp (hne hx)).trans hc, hsaved.trans ?_⟩
      exact (Function.update_of_ne hxp ..).symm

/-! ## Every run -/

theorem Nested.init (h : r.Init root) : Nested root r [root] [root] := by
  obtain ⟨s, fuel, image, c, hnone, hfirst, -, hs⟩ := h
  rw [usermodeTest] at hs
  obtain ⟨s₁, hnew, hs⟩ := Outcome.bind_eq_done.mp hs
  obtain ⟨s₂, hload, hs⟩ := Outcome.bind_eq_done.mp hs
  obtain ⟨s₃, hstart, hs⟩ := Outcome.bind_eq_done.mp hs
  obtain ⟨s₄, hset, hs⟩ := Outcome.bind_eq_done.mp hs
  obtain ⟨proc, -, hs⟩ := Outcome.bind_eq_done.mp hs
  obtain ⟨-, hkernel⟩ := Prod.mk.inj (Outcome.done.inj hs)
  obtain rfl := setAsCurrent_eq_done hset
  rw [Kernel.newProcess] at hnew
  obtain ⟨⟨page, mm, k⟩, -, hnew⟩ := Outcome.bind_eq_done.mp hnew
  cases hnew
  obtain ⟨child, context, hchild, -, hstatus₂, hnext₂, -, hfirst₂⟩ := load_eq_done hload
  obtain ⟨child₃, hchild₃, -, hstatus₃, hnext₃, -, hfirst₃⟩ := start_eq_done hstart
  have hroot : child = UserProcess.new page mm s.firstProcess_ :=
    Option.some.inj (hchild.symm.trans (Function.update_self ..))
  have hchild₃ := status_of_processes hchild₃
  rw [hstatus₂, Function.update_self, hroot] at hchild₃
  -- the root is the only process, and has nothing open
  obtain ⟨c, hc, hrunning, hobjects⟩ : ∃ c, (∀ x, r.kernel.status x = if x = root then some c
      else none) ∧ c.state_ = .running ∧ c.objects_ = fun _ => none := by
    refine ⟨{ child₃.status with state_ := .running }, fun x => ?_, rfl, ?_⟩
    · rw [← hkernel]
      change s₃.status x = _
      rw [hstatus₃, hstatus₂]
      by_cases hx : x = root
      · simp [hx]
      · simp [hx, status, set, hnone]
    · exact (congrArg Status.objects_ (Option.some.inj hchild₃)).symm
  have hnext : r.kernel.next root = some none := by
    rw [← hkernel]
    change s₃.next root = _
    rw [hnext₃, hnext₂]
    change (s.set root _).next root = _
    rw [next_set, Function.update_self]
    exact congrArg some hfirst
  have hfirst : r.kernel.firstProcess_ = some root := by
    rw [← hkernel]
    exact hfirst₃.trans hfirst₂
  have howns : ∀ p i q, ¬ r.kernel.Owns p i q := by
    rintro p i q ⟨c', hc', -, hslot⟩
    rw [hc] at hc'
    split_ifs at hc'
    cases hc'
    rw [hobjects] at hslot
    cases hslot
  have hrun : r.kernel.Running root := ⟨c, (hc root).trans (if_pos rfl), hrunning⟩
  have hcurrent : r.kernel.currentProcess_ = some root := by rw [← hkernel]
  refine ⟨⟨⟨hfirst, none, hnext, rfl⟩, List.nodup_singleton _, fun p => ?_,
    fun p i q ho => absurd ho (howns p i q), fun p i p' i' q ho => absurd ho (howns p i q),
    fun p i q ho => absurd ho (howns p i q), fun _ _ hm => absurd hm (Set.notMem_empty _),
    fun p hp => ?_⟩, ?_, hcurrent, fun p hp => (Option.some.inj hp).symm,
    List.isChain_singleton _, fun p hp => absurd hp List.not_mem_nil, List.mem_singleton_self _,
    fun p i => howns p i root, List.pairwise_singleton _ _⟩
  · rw [List.mem_singleton, hc]
    by_cases hp : p = root <;> simp [hp]
  · rw [hcurrent] at hp
    obtain rfl := Option.some.inj hp
    exact hrun
  · rw [List.filter_cons_of_pos (running_iff.mpr hrun), List.filter_nil]

/-- **A step keeps the processes nested.** -/
theorem Nested.step (h : Nested root r l chain) (hs : r.Step r') :
    ∃ l' chain', Nested root r' l' chain' := by
  cases hs with
  | @syscall s s' startedBy saved fuel a n regs name image c hn ha hs =>
    cases n with
    | exit =>
      have hs : s.exit fuel regs.rdx = .done (c, s') := hs
      -- the current process is the first of the chain
      obtain ⟨p, hcurrent, -⟩ := Outcome.bind_eq_done.mp hs
      obtain ⟨rest, rfl⟩ :=
        List.head?_eq_some_iff.mp (h.current.symm.trans (Outcome.requireSome_eq_done.mp hcurrent))
      obtain ⟨s₁, hexit, h'⟩ := h.exit regs.rdx
      obtain ⟨-, rfl⟩ := Prod.mk.inj (hexit.eq_of_done hs)
      exact ⟨l, rest, h'⟩
    | create =>
      obtain ⟨⟨handle, s₁⟩, hcreate, hs⟩ := Outcome.bind_eq_done.mp hs
      cases hs
      obtain ⟨l', h'⟩ := h.create ha hcreate
      exact ⟨l', chain, h'⟩
    | destroy =>
      obtain ⟨s₁, hdestroy, hs⟩ := Outcome.bind_eq_done.mp hs
      cases hs
      obtain ⟨l', h'⟩ := h.destroy hdestroy
      exact ⟨l', chain, h'⟩
    | startExe => exact absurd rfl hn
    | processExitCode =>
      obtain ⟨exitCode, -, hs⟩ := Outcome.bind_eq_done.mp hs
      cases hs
      exact ⟨l, chain, h⟩
  | @startExe s s' startedBy saved fuel a p q regs name image c proc hcurrent hproc hobj hs =>
    obtain ⟨⟨regs', s₁⟩, hstart, hs⟩ := Outcome.bind_eq_done.mp hs
    cases hs
    have hp : s.Running p := h.forest.current p hcurrent
    have hstarts : Starts s { regs with rax := 0 } p q s' :=
      startExe_eq_done hcurrent hproc hp hobj hstart
    obtain ⟨hvalid, hslot⟩ := Outcome.require_bind_eq_done.mp hobj
    have ho : s.Owns p (regs.rdx.toNat - 1) q :=
      ⟨_, status_of_processes hproc, handleValid_slot hvalid, Outcome.requireSome_eq_done.mp hslot⟩
    exact ⟨l, q :: chain, h.startExe hcurrent ho hstarts⟩
  | memory => exact ⟨l, chain, h.same ⟨rfl, rfl, rfl, rfl⟩⟩

/-- **The running processes are nested, in every run.** -/
theorem process_nesting (hs : ProcessRun.Reachable root r) : ∃ chain, WellNested root r chain := by
  obtain ⟨l, chain, h⟩ : ∃ l chain, Nested root r l chain := by
    refine Reach.invariant (fun r => ∃ l chain, Nested root r l chain) hs
      (fun r hr => ⟨_, _, Nested.init hr⟩) ?_
    rintro r r' ⟨l, chain, h⟩ hstep
    exact h.step hstep
  refine ⟨chain, fun p => h.running, h.nodup, h.current, h.last, h.started.imp fun q p hqp => hqp.1,
    ?_, ?_⟩
  · rintro p rest rfl a regs name image
    obtain ⟨s', hexit, h'⟩ := h.exit regs.rdx
    exact ⟨s', hexit, h'.current, fun q => h'.running⟩
  · intro p proc handle obj s' q hcurrent hproc hobj henters
    obtain ⟨rest, rfl⟩ := List.head?_eq_some_iff.mp (h.current.symm.trans hcurrent)
    obtain ⟨hvalid, hslot⟩ := Outcome.require_bind_eq_done.mp hobj
    obtain ⟨hhide, hdetached⟩ := h.forest.hide (.inl (h.forest.current p hcurrent))
      (Set.notMem_empty (p, handle.toNat - 1)) fun q ho => h.not_running ho
    refine henters.destroyable hhide fun q hq => hdetached q ?_
    refine ⟨_, status_of_processes hproc, handleValid_slot hvalid, ?_⟩
    exact (Outcome.requireSome_eq_done.mp hslot).trans (congrArg some hq)

/-- No processes, and free memory. -/
def idleKernel : Kernel where
  memory := freeMemory
  processes := fun _ => none
  currentProcess_ := none
  firstProcess_ := none
  hasDev := false
  hackDsdtPhys := 0
  hackDsdtLen := 0

/-- The registers of a call for the first handle. -/
def firstHandle : Registers := { Registers.zero with rdx := 1 }

/-- The root process creates another one and starts it. -/
theorem process_nesting_child : ∃ r chain, ProcessRun.Reachable 1 r ∧ r.startedBy 2 = some 1 ∧
    WellNested 1 r chain := by
  have hruns : (do
      let (_, s) ← idleKernel.usermodeTest 10 1 codeImage
      Outcome.require (s.processes 2).isNone
      let (_, s) ← s.syscallHandler 10 2 .create Registers.zero "process" codeImage
      Outcome.require (s.currentProcess_ = some 1)
      let proc ← s.get 1
      let obj ← proc.objectGet firstHandle.rdx
      let q ← obj.getProcess
      Outcome.require (q = 2)
      s.syscallHandler 10 3 .startExe firstHandle "" codeImage).Returns := by
    decide +kernel
  obtain ⟨⟨c, s₂⟩, hrun⟩ := hruns
  obtain ⟨⟨c₀, s₀⟩, hroot, hrun⟩ := Outcome.bind_eq_done.mp hrun
  obtain ⟨hnone, hrun⟩ := Outcome.require_bind_eq_done.mp hrun
  obtain ⟨⟨c₁, s₁⟩, hcreate, hrun⟩ := Outcome.bind_eq_done.mp hrun
  obtain ⟨hcurrent, hrun⟩ := Outcome.require_bind_eq_done.mp hrun
  obtain ⟨proc, hproc, hrun⟩ := Outcome.bind_eq_done.mp hrun
  obtain ⟨obj, hobj, hrun⟩ := Outcome.bind_eq_done.mp hrun
  obtain ⟨q, hq, hrun⟩ := Outcome.bind_eq_done.mp hrun
  obtain ⟨rfl, hstart⟩ := Outcome.require_bind_eq_done.mp hrun
  obtain rfl : obj = .process 2 := by
    cases obj with
    | process q => exact congrArg _ (Outcome.done.inj hq)
    | ethdev => cases hq
    | keyboard => cases hq
    | memMap w => cases hq
  have hinit : ProcessRun.Init 1 ⟨s₀, fun _ => none, fun _ => Registers.zero⟩ :=
    ⟨idleKernel, 10, codeImage, c₀, fun _ => rfl, rfl, rfl, hroot⟩
  have hreach : ProcessRun.Reachable 1 ⟨s₁, fun _ => none, fun _ => Registers.zero⟩ :=
    .step (.start hinit) (.syscall (fun h => by cases h) (Option.isNone_iff_eq_none.mp hnone) hcreate)
  have hreach : ProcessRun.Reachable 1 ⟨s₂, Function.update (fun _ => none) 2 (some 1),
      Function.update (fun _ => Registers.zero) 1 { firstHandle with rax := 0 }⟩ :=
    .step hreach (.startExe hcurrent (get_eq_done.mp hproc) hobj hstart)
  obtain ⟨chain, h⟩ := process_nesting hreach
  exact ⟨_, chain, hreach, rfl, h⟩

end Kernel

end Attos
