import Attos.Syscalls
import Attos.UserSegments
import Attos.Lib.Computes

/-!
# Processes and the processes they own

The processes form a forest by the objects that they have open, and a list by
their `next_` pointers (`Forest`). Destroying an object takes the processes below
it out of both and leaves the others alone (`destroyObject_spec`).

While the destructors run, some objects are still open that are being destroyed.
The invariant is stated for the other ones: `hidden` is the set of those slots.
A process in a hidden slot, or one that runs, is not destroyed by the destructor
of an object that is not hidden (`Safe`), and this is what the induction over the
nested destructors needs.
-/

namespace Attos

open Lib

/-- The life of a process: all but its memory and its place in the list. -/
structure Status : Type where
  /-- its state -/
  state_ : ProcessState
  /-- its registers -/
  context_ : Registers
  /-- its open objects -/
  objects_ : ℕ → Option KernelObject

/-- The status of a process. -/
def UserProcess.status (proc : UserProcess) : Status :=
  ⟨proc.state_, proc.context_, proc.objects_⟩

namespace Kernel

/-- The status of the process at an address. -/
def status (s : Kernel) (p : ℕ) : Option Status := (s.processes p).map UserProcess.status

/-- The pointer to the next process. -/
def next (s : Kernel) (p : ℕ) : Option (Option ℕ) := (s.processes p).map UserProcess.next_

/-- The process runs. -/
def Running (s : Kernel) (p : ℕ) : Prop := ∃ c, s.status p = some c ∧ c.state_ = .running

/-- The process has another one open. -/
def Owns (s : Kernel) (p i q : ℕ) : Prop :=
  ∃ c, s.status p = some c ∧ i < maxObjects ∧ c.objects_ i = some (.process q)

/-- The list of processes from a pointer on. -/
def Chained (s : Kernel) : List ℕ → Option ℕ → Prop
  | [], it => it = none
  | p :: l, it => it = some p ∧ ∃ n, s.next p = some n ∧ s.Chained l n

/-- Nothing changes but memory. -/
structure Same (s s' : Kernel) : Prop where
  /-- the processes -/
  status : s'.status = s.status
  /-- the list of processes -/
  next : s'.next = s.next
  /-- the current process -/
  currentProcess_ : s'.currentProcess_ = s.currentProcess_
  /-- the first process -/
  firstProcess_ : s'.firstProcess_ = s.firstProcess_

variable {s s' s₁ : Kernel} {p q r i n fuel : ℕ} {proc proc' : UserProcess} {c : Status}
  {l l' : List ℕ} {it : Option ℕ} {obj : KernelObject} {hidden : Set (ℕ × ℕ)}

@[simp] theorem get_eq_done : s.get p = .done proc ↔ s.processes p = some proc :=
  Outcome.requireSome_eq_done

theorem status_of_processes (h : s.processes p = some proc) : s.status p = some proc.status := by
  rw [status, h]
  rfl

theorem next_of_processes (h : s.processes p = some proc) : s.next p = some proc.next_ := by
  rw [next, h]
  rfl

theorem processes_of_status (h : s.status p = some c) :
    ∃ proc, s.processes p = some proc ∧ proc.status = c :=
  Option.map_eq_some_iff.mp h

@[simp] theorem status_set (s : Kernel) (p : ℕ) (proc : UserProcess) :
    (s.set p proc).status = Function.update s.status p (some proc.status) := by
  funext q
  by_cases hq : q = p
  · subst hq
    simp [status, set]
  · simp [status, set, hq]

@[simp] theorem next_set (s : Kernel) (p : ℕ) (proc : UserProcess) :
    (s.set p proc).next = Function.update s.next p (some proc.next_) := by
  funext q
  by_cases hq : q = p
  · subst hq
    simp [next, set]
  · simp [next, set, hq]

/-- Changing the memory of a process keeps its status. -/
theorem status_set_self (h : s.processes p = some proc) (hstatus : proc'.status = proc.status) :
    (s.set p proc').status = s.status := by
  rw [status_set, hstatus, ← status_of_processes h]
  exact Function.update_eq_self _ _

theorem next_set_self (h : s.processes p = some proc) (hnext : proc'.next_ = proc.next_) :
    (s.set p proc').next = s.next := by
  rw [next_set, hnext, ← next_of_processes h]
  exact Function.update_eq_self _ _

/-! ## The list of processes -/

theorem Chained.congr (h : s.Chained l it) (hnext : ∀ q ∈ l, s'.next q = s.next q) :
    s'.Chained l it := by
  induction l generalizing it with
  | nil => exact h
  | cons p l ih =>
    obtain ⟨hit, n, hn, hl⟩ := h
    exact ⟨hit, n, (hnext p (List.mem_cons_self ..)).trans hn,
      ih hl fun q hq => hnext q (List.mem_cons_of_mem _ hq)⟩

/-- **`all_processes`** is the list. -/
theorem Chained.listFrom (h : s.Chained l it) : Computes (fun fuel => s.listFrom fuel it) l := by
  induction l generalizing it with
  | nil =>
    rw [h]
    exact .step rfl (fun _ => rfl) (.of_done fun _ => rfl)
  | cons p l ih =>
    obtain ⟨rfl, n, hn, hl⟩ := h
    obtain ⟨proc, hproc, rfl⟩ := Option.map_eq_some_iff.mp hn
    refine .step rfl (fun fuel => ?_) ((ih hl).bind (g := fun _ ps => .done (p :: ps)) (.of_done fun _ => rfl))
    rw [Kernel.listFrom, get_eq_done.mpr hproc]
    rfl

/-- The search for the previous process, and the list without the process. -/
theorem Chained.findPrevious (h : s.Chained (p :: l) it) (hnodup : (p :: l).Nodup) (hq : q ∈ l)
    (hs : s.findPrevious q fuel it = .done r) :
    r ∈ p :: l ∧ ∀ s' : Kernel, (∀ b, b ≠ r → s'.next b = s.next b) → s'.next r = s.next q →
      s'.Chained (p :: l.erase q) it := by
  induction fuel generalizing p l it with
  | zero => simp [Kernel.findPrevious] at hs
  | succ fuel ih =>
    obtain ⟨rfl, n, hn, hl⟩ := h
    obtain ⟨proc, hproc, rfl⟩ := Option.map_eq_some_iff.mp hn
    rw [Kernel.findPrevious, Outcome.requireSome_some, Outcome.done_bind, get_eq_done.mpr hproc,
      Outcome.done_bind] at hs
    obtain ⟨b, l, rfl⟩ := List.exists_cons_of_ne_nil (List.ne_nil_of_mem hq)
    obtain ⟨hb, m, hm, hl'⟩ := hl
    have hpb : p ≠ b := fun heq => (List.nodup_cons.mp hnodup).1 (heq ▸ List.mem_cons_self ..)
    split_ifs at hs with hlast
    · -- the process is the next one
      cases hs
      obtain rfl : b = q := Option.some.inj (hb.symm.trans hlast)
      refine ⟨List.mem_cons_self .., fun s' hother hself => ⟨rfl, m, hself.trans hm, ?_⟩⟩
      rw [List.erase_cons_head]
      refine hl'.congr fun a ha => hother a ?_
      rintro rfl
      exact (List.nodup_cons.mp hnodup).1 (List.mem_cons_of_mem _ ha)
    · have hbq : b ≠ q := fun heq => hlast (heq ▸ hb)
      have hq' : q ∈ l := (List.mem_cons.mp hq).resolve_left (Ne.symm hbq)
      obtain ⟨hr, hrest⟩ := ih ⟨hb, m, hm, hl'⟩ (List.nodup_cons.mp hnodup).2 hq' hs
      have hpr : p ≠ r := fun heq => (List.nodup_cons.mp hnodup).1 (heq ▸ hr)
      refine ⟨List.mem_cons_of_mem _ hr, fun s' hother hself => ⟨rfl, proc.next_, ?_, ?_⟩⟩
      · exact (hother p hpr).trans hn
      · rw [List.erase_cons_tail (by simpa using hbq)]
        exact hrest s' hother hself

/-- **A process is taken out of the list**, and nothing else changes. -/
theorem Chained.unlink (h : s.Chained l s.firstProcess_) (hnodup : l.Nodup) (hq : q ∈ l)
    (hs : s.unlink fuel q = .done s') :
    s'.Chained (l.erase q) s'.firstProcess_ ∧ s'.status = s.status ∧
      s'.currentProcess_ = s.currentProcess_ := by
  rw [Kernel.unlink] at hs
  obtain ⟨proc, hproc, hs⟩ := Outcome.bind_eq_done.mp hs
  rw [get_eq_done] at hproc
  obtain ⟨p, l, rfl⟩ := List.exists_cons_of_ne_nil (List.ne_nil_of_mem hq)
  have hfirst := h.1
  split_ifs at hs with hself
  · cases hs
    obtain rfl : p = q := Option.some.inj (hfirst.symm.trans hself)
    obtain ⟨-, n, hn, hl⟩ := h
    rw [next_of_processes hproc] at hn
    rw [List.erase_cons_head]
    obtain rfl := Option.some.inj hn
    exact ⟨hl.congr fun _ _ => rfl, rfl, rfl⟩
  · have hpq : p ≠ q := fun heq => hself (heq ▸ hfirst)
    have hq' : q ∈ l := (List.mem_cons.mp hq).resolve_left (Ne.symm hpq)
    obtain ⟨r, hfind, hs⟩ := Outcome.bind_eq_done.mp hs
    obtain ⟨prev, hprev, hs⟩ := Outcome.bind_eq_done.mp hs
    rw [get_eq_done] at hprev
    cases hs
    obtain ⟨-, hrest⟩ := h.findPrevious hnodup hq' hfind
    refine ⟨?_, status_set_self hprev rfl, rfl⟩
    rw [List.erase_cons_tail (by simpa using hpq)]
    refine hrest _ (fun b hb => ?_) ?_
    · simp [hb]
    · simp [next_of_processes hproc]

/-! ## The forest of processes -/

/-- No visible slot has the process open. -/
def Unowned (hidden : Set (ℕ × ℕ)) (s : Kernel) (p : ℕ) : Prop := ∀ q i, s.Owns q i p → (q, i) ∈ hidden

/-- Destroying an object does not reach the process. -/
def Safe (hidden : Set (ℕ × ℕ)) (s : Kernel) (p : ℕ) : Prop := s.Running p ∨ Unowned hidden s p

/-- The processes form a forest, apart from the hidden slots, and a list. -/
structure Forest (hidden : Set (ℕ × ℕ)) (s : Kernel) (l : List ℕ) : Prop where
  /-- the list -/
  chained : s.Chained l s.firstProcess_
  /-- has no process twice -/
  nodup : l.Nodup
  /-- and has all processes -/
  mem : ∀ p, p ∈ l ↔ ∃ c, s.status p = some c
  /-- the processes that are open exist -/
  live : ∀ p i q, s.Owns p i q → (p, i) ∉ hidden → q ∈ l
  /-- and are open once -/
  unique : ∀ p i p' i' q, s.Owns p i q → (p, i) ∉ hidden → s.Owns p' i' q → (p', i') ∉ hidden →
    p = p' ∧ i = i'
  /-- a process that does not run has no running one open -/
  idle : ∀ p i q, s.Owns p i q → (p, i) ∉ hidden → s.Running q → s.Running p
  /-- the hidden slots are of processes that are destroyed already, or run -/
  safe : ∀ p i, (p, i) ∈ hidden → Safe hidden s p
  /-- the current process runs -/
  current : ∀ p, s.currentProcess_ = some p → s.Running p

/-- A process that can be destroyed: it does not run, and is in a hidden slot. -/
structure Detached (hidden : Set (ℕ × ℕ)) (s : Kernel) (l : List ℕ) (p : ℕ) : Prop where
  /-- it exists -/
  mem : p ∈ l
  /-- it does not run -/
  idle : ¬ s.Running p
  /-- no visible slot has it open -/
  unowned : Unowned hidden s p
  /-- its own slots are visible -/
  visible : ∀ i, (p, i) ∉ hidden

/-- An object that is a process is one that can be destroyed. -/
def DetachedObject (hidden : Set (ℕ × ℕ)) (s : Kernel) (l : List ℕ) (obj : KernelObject) : Prop :=
  ∀ p, obj = .process p → Detached hidden s l p

/-- What the destructor of an object does to the processes. -/
structure Destroyed (hidden : Set (ℕ × ℕ)) (s : Kernel) (l : List ℕ) (obj : KernelObject)
    (s' : Kernel) (l' : List ℕ) : Prop where
  /-- the other processes are a forest -/
  forest : Forest hidden s' l'
  /-- and are as before -/
  status : ∀ p c, s'.status p = some c → s.status p = some c
  /-- the same process is current -/
  current : s'.currentProcess_ = s.currentProcess_
  /-- the list keeps its order -/
  sublist : l'.Sublist l
  /-- and all processes that are safe -/
  stays : ∀ p, Safe hidden s p → obj ≠ .process p → p ∈ l → p ∈ l'

/-- What is to be shown of the destructor of an object. -/
def DestroysWell (destroy : Kernel → KernelObject → Outcome Kernel) : Prop :=
  ∀ hidden s l obj s', Forest hidden s l → DetachedObject hidden s l obj →
    destroy s obj = .done s' → ∃ l', Destroyed hidden s l obj s' l'

/-- An object of a process is reset. -/
structure Reset (hidden : Set (ℕ × ℕ)) (s : Kernel) (l : List ℕ) (p i : ℕ) (s' : Kernel)
    (l' : List ℕ) : Prop where
  /-- the other processes are a forest -/
  forest : Forest hidden s' l'
  /-- and are as before -/
  status : ∀ q, q ≠ p → ∀ c, s'.status q = some c → s.status q = some c
  /-- the slot is empty -/
  self : ∃ c, s.status p = some c ∧
    s'.status p = some { c with objects_ := Function.update c.objects_ i none }
  /-- the same process is current -/
  current : s'.currentProcess_ = s.currentProcess_
  /-- the list keeps its order -/
  sublist : l'.Sublist l
  /-- and all processes that are safe -/
  stays : ∀ q, Safe hidden s q → q ∈ l → q ∈ l'

theorem Safe.mono {hidden' : Set (ℕ × ℕ)} (h : Safe hidden s p) (hsub : hidden ⊆ hidden') :
    Safe hidden' s p :=
  h.imp_right fun hu q i hq => hsub (hu q i hq)

/-- A process that is open in a visible slot and does not run is not safe. -/
theorem Safe.not_owns (h : Safe hidden s q) (ho : s.Owns p i q) (hi : (p, i) ∉ hidden)
    (hq : ¬ s.Running q) : False :=
  h.elim hq fun hu => hi (hu p i ho)

theorem Owns.lt (h : s.Owns p i q) : i < maxObjects := by
  obtain ⟨c, -, hi, -⟩ := h
  exact hi

/-- **A slot is hidden** before its object is destroyed. -/
theorem Forest.hide (h : Forest hidden s l) (hp : Safe hidden s p) (hi : (p, i) ∉ hidden)
    (hidle : ∀ q, s.Owns p i q → ¬ s.Running q) :
    Forest (insert (p, i) hidden) s l ∧
      ∀ q, s.Owns p i q → Detached (insert (p, i) hidden) s l q := by
  have hsub : hidden ⊆ insert (p, i) hidden := Set.subset_insert _ _
  refine ⟨⟨h.chained, h.nodup, h.mem, fun p' i' q ho hv => h.live p' i' q ho fun hm => hv (hsub hm),
    fun p₁ i₁ p₂ i₂ q ho hv ho' hv' => h.unique p₁ i₁ p₂ i₂ q ho (fun hm => hv (hsub hm)) ho'
      fun hm => hv' (hsub hm),
    fun p' i' q ho hv => h.idle p' i' q ho fun hm => hv (hsub hm), fun p' i' hm => ?_, h.current⟩,
    fun q ho => ⟨h.live p i q ho hi, hidle q ho, fun p' i' ho' => ?_, fun j hm => ?_⟩⟩
  · rcases Set.mem_insert_iff.mp hm with heq | hm
    · obtain ⟨rfl, rfl⟩ := Prod.mk.inj heq
      exact hp.mono hsub
    · exact (h.safe p' i' hm).mono hsub
  · -- the process is open in this slot only
    by_contra hv
    obtain ⟨rfl, rfl⟩ := h.unique p' i' p i q ho' (fun hm => hv (hsub hm)) ho hi
    exact hv (Set.mem_insert _ _)
  · rcases Set.mem_insert_iff.mp hm with heq | hm
    · obtain ⟨rfl, rfl⟩ := Prod.mk.inj heq
      exact hp.not_owns ho hi (hidle q ho)
    · exact (h.safe q j hm).not_owns ho hi (hidle q ho)

/-- **The slot is empty** afterwards. -/
theorem Forest.clear (h : Forest (insert (p, i) hidden) s l) (hp : s.status p = some c)
    (hstatus : s'.status = Function.update s.status p
      (some { c with objects_ := Function.update c.objects_ i none }))
    (hnext : s'.next = s.next) (hcurrent : s'.currentProcess_ = s.currentProcess_)
    (hfirst : s'.firstProcess_ = s.firstProcess_) : Forest hidden s' l := by
  have howns : ∀ {q j r}, s'.Owns q j r → s.Owns q j r ∧ (q, j) ≠ (p, i) := by
    rintro q j r ⟨c', hc, hj, hobj⟩
    rw [hstatus] at hc
    by_cases hq : q = p
    · subst hq
      rw [Function.update_self, Option.some.injEq] at hc
      subst hc
      by_cases hji : j = i
      · subst hji
        simp at hobj
      · simp only [Function.update_of_ne hji] at hobj
        exact ⟨⟨c, hp, hj, hobj⟩, fun heq => hji (Prod.mk.inj heq).2⟩
    · rw [Function.update_of_ne hq] at hc
      exact ⟨⟨c', hc, hj, hobj⟩, fun heq => hq (Prod.mk.inj heq).1⟩
  have hrunning : ∀ q, s'.Running q ↔ s.Running q := by
    intro q
    unfold Running
    rw [hstatus]
    by_cases hq : q = p
    · subst hq
      simp [hp]
    · rw [Function.update_of_ne hq]
  have hvisible : ∀ {x : ℕ × ℕ}, x ∉ hidden → x ≠ (p, i) → x ∉ insert (p, i) hidden :=
    fun hx hne hm => (Set.mem_insert_iff.mp hm).elim hne hx
  refine ⟨hfirst ▸ h.chained.congr fun q _ => by rw [hnext], h.nodup, fun q => ?_,
    fun q j r ho hv => ?_, fun p₁ i₁ p₂ i₂ q ho₁ hv₁ ho₂ hv₂ => ?_, fun q j r ho hv hr => ?_,
    fun q j hm => ?_, fun q hq => (hrunning q).mpr (h.current q (hcurrent ▸ hq))⟩
  · rw [h.mem q, hstatus]
    by_cases hq : q = p
    · subst hq
      simp [hp]
    · rw [Function.update_of_ne hq]
  · obtain ⟨ho, hne⟩ := howns ho
    exact h.live q j r ho (hvisible hv hne)
  · obtain ⟨ho₁, hne₁⟩ := howns ho₁
    obtain ⟨ho₂, hne₂⟩ := howns ho₂
    exact h.unique p₁ i₁ p₂ i₂ q ho₁ (hvisible hv₁ hne₁) ho₂ (hvisible hv₂ hne₂)
  · obtain ⟨ho, hne⟩ := howns ho
    exact (hrunning q).mpr (h.idle q j r ho (hvisible hv hne) ((hrunning r).mp hr))
  · rcases h.safe q j (Set.mem_insert_of_mem _ hm) with hr | hu
    · exact .inl ((hrunning q).mpr hr)
    · refine .inr fun q' j' ho => ?_
      obtain ⟨ho, hne⟩ := howns ho
      exact (Set.mem_insert_iff.mp (hu q' j' ho)).resolve_left hne

/-- **Resetting a slot** destroys its object, and leaves the other processes
alone. -/
theorem resetObject_spec {destroy : Kernel → KernelObject → Outcome Kernel}
    (hd : DestroysWell destroy) (h : Forest hidden s l) (hp : Safe hidden s p)
    (hlt : i < maxObjects) (hi : (p, i) ∉ hidden) (hidle : ∀ q, s.Owns p i q → ¬ s.Running q)
    (hs : resetObject destroy s p i = .done s') : ∃ l', Reset hidden s l p i s' l' := by
  rw [resetObject] at hs
  obtain ⟨proc, hproc, hs⟩ := Outcome.bind_eq_done.mp hs
  rw [get_eq_done] at hproc
  have hstatus := status_of_processes hproc
  cases hobj : proc.objects_ i with
  | none =>
    rw [hobj] at hs
    cases hs
    refine ⟨l, h, fun q _ c hc => hc, ⟨_, hstatus, ?_⟩, rfl, List.Sublist.refl _, fun q _ hq => hq⟩
    rw [hstatus, ← (show proc.status.objects_ i = none from hobj), Function.update_eq_self]
  | some obj =>
    rw [hobj] at hs
    obtain ⟨s₁, hdestroy, hs⟩ := Outcome.bind_eq_done.mp hs
    obtain ⟨proc₁, hproc₁, hs⟩ := Outcome.bind_eq_done.mp hs
    rw [get_eq_done] at hproc₁
    cases hs
    have howns : ∀ q, obj = .process q → s.Owns p i q := fun q hq =>
      ⟨_, hstatus, hlt, hq ▸ hobj⟩
    obtain ⟨hhide, hdetached⟩ := h.hide hp hi hidle
    obtain ⟨l', hd'⟩ := hd _ _ _ _ _ hhide (fun q hq => hdetached q (howns q hq)) hdestroy
    have hsub : hidden ⊆ insert (p, i) hidden := Set.subset_insert _ _
    -- a safe process is not the one in the slot
    have hstays : ∀ q, Safe hidden s q → q ∈ l → q ∈ l' := fun q hq hm =>
      hd'.stays q (hq.mono hsub)
        (fun heq => hq.not_owns (howns q heq) hi (hidle q (howns q heq))) hm
    have hstatus₁ := status_of_processes hproc₁
    have hself : proc₁.status = proc.status :=
      Option.some.inj ((hd'.status p _ hstatus₁).symm.trans hstatus)
    refine ⟨l', ?_, fun q hq c hc => ?_, ⟨_, hstatus, ?_⟩, hd'.current, hd'.sublist, hstays⟩
    · exact hd'.forest.clear hstatus₁ (status_set _ _ _) (next_set_self hproc₁ rfl) rfl rfl
    · rw [status_set, Function.update_of_ne hq] at hc
      exact hd'.status q c hc
    · rw [status_set, Function.update_self, ← hself]
      rfl

/-- The first objects of a process that is destroyed are reset. -/
structure ResetFirst (hidden : Set (ℕ × ℕ)) (s : Kernel) (l : List ℕ) (p n : ℕ) (s' : Kernel)
    (l' : List ℕ) : Prop where
  /-- the other processes are a forest -/
  forest : Forest hidden s' l'
  /-- the process can still be destroyed -/
  detached : Detached hidden s' l' p
  /-- the others are as before -/
  status : ∀ q, q ≠ p → ∀ c, s'.status q = some c → s.status q = some c
  /-- the slots are empty -/
  empty : ∀ i < n, ∀ c, s'.status p = some c → c.objects_ i = none
  /-- the same process is current -/
  current : s'.currentProcess_ = s.currentProcess_
  /-- the list keeps its order -/
  sublist : l'.Sublist l
  /-- and all processes that are safe -/
  stays : ∀ q, Safe hidden s q → q ∈ l → q ∈ l' ∧ Safe hidden s' q

/-- A safe process stays one when no process is opened. -/
theorem Safe.of_status (h : Safe hidden s p)
    (howns : ∀ q i r, s'.Owns q i r → s.Owns q i r) (hrunning : s.Running p → s'.Running p) :
    Safe hidden s' p :=
  h.imp hrunning fun hu q i ho => hu q i (howns q i p ho)

theorem Reset.owns (h : Reset hidden s l p i s' l') {j : ℕ} (ho : s'.Owns q j r) : s.Owns q j r := by
  obtain ⟨c, hc, hj, hobj⟩ := ho
  by_cases hq : q = p
  · subst hq
    obtain ⟨c', hc', hself⟩ := h.self
    rw [hself] at hc
    cases hc
    by_cases hji : j = i
    · subst hji
      simp at hobj
    · simp only [Function.update_of_ne hji] at hobj
      exact ⟨c', hc', hj, hobj⟩
  · exact ⟨c, h.status q hq c hc, hj, hobj⟩

/-- Processes in the list after a slot is reset run if they did. -/
theorem Reset.running (h : Reset hidden s l p i s' l') (hq : q ∈ l') :
    s'.Running q ↔ s.Running q := by
  obtain ⟨c, hc⟩ := (h.forest.mem q).mp hq
  by_cases hqp : q = p
  · subst hqp
    obtain ⟨c', hc', hself⟩ := h.self
    simp [Running, hc', hself]
  · simp [Running, hc, h.status q hqp c hc]

/-- **The loop over the objects** of a process that is destroyed. -/
theorem resetObjects_spec {destroy : Kernel → KernelObject → Outcome Kernel}
    (hd : DestroysWell destroy) (h : Forest hidden s l) (hp : Detached hidden s l p)
    (hn : n ≤ maxObjects) (hs : resetObjects destroy p n s = .done s') :
    ∃ l', ResetFirst hidden s l p n s' l' := by
  induction n generalizing s' with
  | zero =>
    cases hs
    exact ⟨l, h, hp, fun q _ c hc => hc, by simp, rfl, List.Sublist.refl _, fun q hq hm => ⟨hm, hq⟩⟩
  | succ n ih =>
    obtain ⟨s₁, hfirst, hs⟩ := Outcome.bind_eq_done.mp hs
    obtain ⟨l₁, h₁⟩ := ih (Nat.le_of_succ_le hn) hfirst
    have hvisible : (p, n) ∉ hidden := hp.visible n
    -- the process does not run, so what it has open does not
    have hidle : ∀ q, s₁.Owns p n q → ¬ s₁.Running q := fun q ho hr =>
      h₁.detached.idle (h₁.forest.idle p n q ho hvisible hr)
    obtain ⟨l', h₂⟩ := resetObject_spec hd h₁.forest (.inr h₁.detached.unowned) hn hvisible hidle hs
    have hmem : p ∈ l' := h₂.stays p (.inr h₁.detached.unowned) h₁.detached.mem
    refine ⟨l', h₂.forest, ⟨hmem, ?_, ?_, hp.visible⟩, fun q hq c hc => ?_, fun i hi c hc => ?_,
      h₂.current.trans h₁.current, h₂.sublist.trans h₁.sublist, fun q hq hm => ?_⟩
    · rw [h₂.running hmem]
      exact h₁.detached.idle
    · exact fun q i ho => h₁.detached.unowned q i (h₂.owns ho)
    · exact h₁.status q hq c (h₂.status q hq c hc)
    · obtain ⟨c', hc', hself⟩ := h₂.self
      rw [hself] at hc
      cases hc
      by_cases hin : i = n
      · subst hin
        simp
      · simp only [Function.update_of_ne hin]
        exact h₁.empty i (by omega) c' hc'
    · obtain ⟨hm₁, hsafe⟩ := h₁.stays q hq hm
      have hm₂ := h₂.stays q hsafe hm₁
      exact ⟨hm₂, hsafe.of_status (fun _ _ _ => h₂.owns) (h₂.running hm₂).mpr⟩

/-- Unmapping a window changes no process. -/
theorem destroyMemMap_eq_done {w : MemMapHelper} (hs : s.destroyMemMap fuel w = .done s') :
    Same s s' := by
  rw [destroyMemMap] at hs
  split_ifs at hs
  · obtain ⟨proc, hproc, hs⟩ := Outcome.bind_eq_done.mp hs
    rw [get_eq_done] at hproc
    obtain ⟨⟨mm, k⟩, -, hs⟩ := Outcome.bind_eq_done.mp hs
    cases hs
    exact ⟨status_set_self hproc rfl, next_set_self hproc rfl, rfl, rfl⟩
  · cases hs
    exact ⟨rfl, rfl, rfl, rfl⟩

theorem Same.owns (h : Same s s') : s'.Owns p i q ↔ s.Owns p i q := by
  unfold Owns
  rw [h.status]

theorem Same.running (h : Same s s') : s'.Running p ↔ s.Running p := by
  unfold Running
  rw [h.status]

theorem Forest.same (h : Forest hidden s l) (hsame : Same s s') : Forest hidden s' l where
  chained := hsame.firstProcess_ ▸ h.chained.congr fun q _ => by rw [hsame.next]
  nodup := h.nodup
  mem p := by rw [h.mem p, hsame.status]
  live p i q ho := h.live p i q (hsame.owns.mp ho)
  unique p i p' i' q ho hv ho' := h.unique p i p' i' q (hsame.owns.mp ho) hv (hsame.owns.mp ho')
  idle p i q ho hv hr := hsame.running.mpr (h.idle p i q (hsame.owns.mp ho) hv (hsame.running.mp hr))
  safe p i hm := (h.safe p i hm).of_status (fun _ _ _ => hsame.owns.mp) hsame.running.mpr
  current p hp := hsame.running.mpr (h.current p (hsame.currentProcess_ ▸ hp))

/-- An object that is not a process is destroyed. -/
theorem Forest.destroyed_same (h : Forest hidden s l) (hsame : Same s s') :
    Destroyed hidden s l obj s' l where
  forest := h.same hsame
  status _ _ hc := hsame.status ▸ hc
  current := hsame.currentProcess_
  sublist := List.Sublist.refl _
  stays _ _ _ hp := hp

/-- The members of a process are destroyed, and it is gone. -/
theorem release_eq_done (hs : s.release p = .done s') :
    s'.status = Function.update s.status p none ∧ s'.next = Function.update s.next p none ∧
      s'.currentProcess_ = s.currentProcess_ ∧ s'.firstProcess_ = s.firstProcess_ := by
  rw [release] at hs
  obtain ⟨proc, -, hs⟩ := Outcome.bind_eq_done.mp hs
  obtain ⟨k, -, hs⟩ := Outcome.bind_eq_done.mp hs
  cases hs
  refine ⟨?_, ?_, rfl, rfl⟩
  · funext q
    by_cases hq : q = p
    · subst hq
      simp [status]
    · simp [status, hq]
  · funext q
    by_cases hq : q = p
    · subst hq
      simp [next]
    · simp [next, hq]

/-- **A process without objects is taken out** of the forest and the list. -/
theorem ResetFirst.destroyed (h : ResetFirst hidden s l p maxObjects s₁ l')
    (hcurrent : s.currentProcess_ ≠ some p) {s₂ : Kernel} (hunlink : s₁.unlink fuel p = .done s₂)
    (hrelease : s₂.release p = .done s') : Destroyed hidden s l (.process p) s' (l'.erase p) := by
  obtain ⟨hchained, hstatus₂, hcurrent₂⟩ :=
    h.forest.chained.unlink h.forest.nodup h.detached.mem hunlink
  obtain ⟨hstatus, hnext, hcurrent', hfirst⟩ := release_eq_done hrelease
  rw [hstatus₂] at hstatus
  have hcurrent₁ : s'.currentProcess_ = s₁.currentProcess_ := hcurrent'.trans hcurrent₂
  have hmem : ∀ q, q ∈ l'.erase p ↔ q ≠ p ∧ q ∈ l' := fun q => h.forest.nodup.mem_erase_iff
  -- the process has nothing open, and is not there any more
  have howns : ∀ {q i r}, s'.Owns q i r → s₁.Owns q i r ∧ q ≠ p := by
    rintro q i r ⟨c, hc, hi, hobj⟩
    rw [hstatus] at hc
    by_cases hq : q = p
    · subst hq
      simp at hc
    · rw [Function.update_of_ne hq] at hc
      exact ⟨⟨c, hc, hi, hobj⟩, hq⟩
  have hrunning : ∀ q, s'.Running q ↔ q ≠ p ∧ s₁.Running q := by
    intro q
    unfold Running
    rw [hstatus]
    by_cases hq : q = p
    · subst hq
      simp
    · simp [hq]
  have hkeep : ∀ q, s₁.Running q → s'.Running q := fun q hq =>
    (hrunning q).mpr ⟨fun heq => h.detached.idle (heq ▸ hq), hq⟩
  refine ⟨⟨?_, h.forest.nodup.erase p, fun q => ?_, fun q i r ho hv => ?_,
    fun p₁ i₁ p₂ i₂ q ho₁ hv₁ ho₂ hv₂ => ?_, fun q i r ho hv hr => ?_, fun q i hm => ?_,
    fun q hq => ?_⟩, fun q c hc => ?_, hcurrent₁.trans h.current,
    (List.erase_sublist).trans h.sublist, fun q hq hne hm => ?_⟩
  · rw [hfirst]
    refine hchained.congr fun q hq => ?_
    rw [hnext, Function.update_of_ne ((hmem q).mp hq).1]
  · rw [hmem, h.forest.mem q, hstatus]
    by_cases hq : q = p
    · subst hq
      simp
    · simp [hq]
  · refine (hmem r).mpr ⟨?_, h.forest.live q i r (howns ho).1 hv⟩
    rintro rfl
    exact hv (h.detached.unowned q i (howns ho).1)
  · exact h.forest.unique p₁ i₁ p₂ i₂ q (howns ho₁).1 hv₁ (howns ho₂).1 hv₂
  · obtain ⟨ho, -⟩ := howns ho
    exact hkeep q (h.forest.idle q i r ho hv ((hrunning r).mp hr).2)
  · exact (h.forest.safe q i hm).of_status (fun _ _ _ ho => (howns ho).1) (hkeep q)
  · exact hkeep q (h.forest.current q (hcurrent₁ ▸ hq))
  · rw [hstatus] at hc
    by_cases hqp : q = p
    · subst hqp
      simp at hc
    · rw [Function.update_of_ne hqp] at hc
      exact h.status q hqp c hc
  · have hqp : q ≠ p := fun heq => hne (heq ▸ rfl)
    exact (hmem q).mpr ⟨hqp, (h.stays q hq hm).1⟩

/-- **The destructor of an object** destroys the processes below it, and leaves
the other ones alone. -/
theorem destroyObject_spec (fuel : ℕ) : DestroysWell (destroyObject fuel) := by
  -- by induction on the depth of the nested destructors
  induction fuel with
  | zero =>
    intro hidden s l obj s' _ _ hs
    simp [destroyObject] at hs
  | succ fuel ih =>
    intro hidden s l obj s' h hobj hs
    cases obj with
    | ethdev =>
      cases hs
      exact ⟨l, h.destroyed_same ⟨rfl, rfl, rfl, rfl⟩⟩
    | keyboard =>
      cases hs
      exact ⟨l, h.destroyed_same ⟨rfl, rfl, rfl, rfl⟩⟩
    | memMap w => exact ⟨l, h.destroyed_same (destroyMemMap_eq_done hs)⟩
    | process p =>
      rw [destroyObject] at hs
      obtain ⟨proc, -, hs⟩ := Outcome.bind_eq_done.mp hs
      obtain ⟨-, hs⟩ := Outcome.require_bind_eq_done.mp hs
      obtain ⟨hcurrent, hs⟩ := Outcome.require_bind_eq_done.mp hs
      obtain ⟨s₁, hreset, hs⟩ := Outcome.bind_eq_done.mp hs
      obtain ⟨s₂, hunlink, hrelease⟩ := Outcome.bind_eq_done.mp hs
      obtain ⟨l₁, h₁⟩ := resetObjects_spec ih h (hobj p rfl) le_rfl hreset
      exact ⟨_, h₁.destroyed hcurrent hunlink hrelease⟩

/-! ## The check of the destructor -/

/-- While an object is destroyed, `~user_process` is entered in a state, for a
process. -/
inductive Enters : Kernel → KernelObject → Kernel → ℕ → Prop where
  /-- for the object itself -/
  | self {s : Kernel} {p : ℕ} : Enters s (.process p) s p
  /-- below an object that it has open, when those before it are reset -/
  | object {s s₁ s' : Kernel} {p i q fuel : ℕ} {proc : UserProcess} {obj : KernelObject} :
      resetObjects (destroyObject fuel) p i s = .done s₁ → i < maxObjects →
        s₁.processes p = some proc → proc.objects_ i = some obj → Enters s₁ obj s' q →
          Enters s (.process p) s' q

/-- **The check of the destructor passes** whenever it is entered. -/
theorem Enters.destroyable (he : Enters s obj s' q) (h : Forest hidden s l)
    (hobj : DetachedObject hidden s l obj) : Destroyable s' q := by
  induction he generalizing hidden l with
  | @self s p =>
    have hp := hobj p rfl
    obtain ⟨c, hc⟩ := (h.mem p).mp hp.mem
    obtain ⟨proc, hproc, rfl⟩ := processes_of_status hc
    refine ⟨⟨proc, hproc, ?_⟩, fun hcurrent => hp.idle (h.current p hcurrent)⟩
    have hne : proc.state_ ≠ .running := fun heq => hp.idle ⟨_, hc, heq⟩
    cases hstate : proc.state_ with
    | created => exact .inl rfl
    | running => exact absurd hstate hne
    | exited => exact .inr rfl
  | @object s s₁ s' p i q fuel proc obj hreset hi hproc hslot _ ih =>
    obtain ⟨l₁, h₁⟩ := resetObjects_spec (destroyObject_spec fuel) h (hobj p rfl) hi.le hreset
    have hvisible := h₁.detached.visible i
    have hidle : ∀ q, s₁.Owns p i q → ¬ s₁.Running q := fun q ho hr =>
      h₁.detached.idle (h₁.forest.idle p i q ho hvisible hr)
    obtain ⟨hhide, hdetached⟩ := h₁.forest.hide (.inr h₁.detached.unowned) hvisible hidle
    refine ih hhide fun r hr => hdetached r ⟨_, status_of_processes hproc, hi, ?_⟩
    exact hslot.trans (congrArg some hr)

end Kernel

end Attos
