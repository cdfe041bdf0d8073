import Attos.Lib.Fifo
import Attos.Ps2.Controller

/-!
# Runs of the queue of scan codes

A queue is constructed without elements; then elements are pushed while it is not full and popped
while it is not empty, in any order and so often that the positions wrap around again and again.
Every call does to the contents what a first-in, first-out queue does (`Call.fifo`), and so does
every run (`fifo_of_trace`). The interrupts and the reads of the keyboard are such calls
(`Reachable.trace`).
-/

namespace Attos.Ps2

open Lib

namespace FixedSizeQueue

variable {α : Type} {n : ℕ} {q q' : FixedSizeQueue α n} {e : QueueEvent α} {es : List (QueueEvent α)}

/-- What the constructor leaves: the positions are zero, the elements can be anything. -/
def Constructed (q : FixedSizeQueue α n) : Prop := q.readPos_ = 0 ∧ q.writePos_ = 0

/-- A call that looks at `full` or `empty` first. -/
inductive Call : FixedSizeQueue α n → QueueEvent α → FixedSizeQueue α n → Prop where
  /-- `push` -/
  | push {q : FixedSizeQueue α n} (elem : α) : q.full = false → Call q (.put elem) (q.push elem)
  /-- `pop` -/
  | pop {q : FixedSizeQueue α n} : q.empty = false → Call q (.take q.pop.1) q.pop.2

/-- The elements that an iteration from a position to `end()` visits. -/
def visit (q : FixedSizeQueue α n) : ℕ → UInt32 → Outcome (List α)
  | 0, _ => .running
  | fuel + 1, pos =>
    if pos = q.writePos_ then .done []
    else do
      let rest ← q.visit fuel (pos + 1)
      pure (q.elemAt pos :: rest)

/-! ## The iteration -/

/-- The iteration visits the rest of the elements, `k` steps before the end. -/
theorem visit_computes (q : FixedSizeQueue α n) {k : ℕ} {pos : UInt32} (hpos : (q.writePos_ - pos).toNat = k) :
    Computes (fun fuel => q.visit fuel pos) (q.elemsFrom pos k) := by
  induction k generalizing pos with
  | zero =>
    refine .step rfl (fun fuel => ?_) (.of_done fun _ => rfl)
    rw [visit, if_pos (q.eq_writePos hpos)]
    rfl
  | succ k ih =>
    obtain ⟨hne, hnext⟩ := q.ne_writePos hpos
    rw [elemsFrom_succ]
    refine .step rfl (fun fuel => ?_)
      ((ih hnext).bind (g := fun _ rest => .done (q.elemAt pos :: rest)) (.of_done fun _ => rfl))
    rw [visit, if_neg hne]
    rfl

/-- **The iteration** visits the contents. -/
theorem visit_contents (q : FixedSizeQueue α n) : Computes (fun fuel => q.visit fuel q.readPos_) q.contents :=
  q.visit_computes rfl

/-! ## Runs -/

theorem Constructed.contents (h : q.Constructed) : q.contents = [] := by
  apply List.length_eq_zero_iff.mp
  rw [length_contents, size, h.1, h.2]
  rfl

/-- **A call** puts an element in the queue or takes one out. -/
theorem Call.fifo (hn : Fits n) (hq : q.size ≤ n) (h : Call q e q') :
    Fifo q.contents e q'.contents ∧ q'.size ≤ n := by
  cases h with
  | push elem hfull =>
    have hlt : q.size < n := lt_of_le_of_ne hq (of_decide_eq_false hfull)
    rw [← length_contents, contents_push hn hlt, List.length_append, length_contents]
    exact ⟨.put _ _, hlt⟩
  | pop hempty =>
    have hne : q.size ≠ 0 := of_decide_eq_false hempty
    rw [contents_pop hne]
    exact ⟨.take _ _, (Nat.le_of_succ_le (size_pop hne).le).trans hq⟩

/-- **A run** is one of a first-in, first-out queue. -/
theorem trace_contents (hn : Fits n) (hq : q.Constructed) (h : Trace Call q es q') :
    Trace Fifo [] es q'.contents ∧ q'.size ≤ n := by
  have hstart : q.contents = [] ∧ q.size ≤ n := by
    rw [← length_contents, hq.contents]
    exact ⟨rfl, Nat.zero_le n⟩
  obtain ⟨l, htrace, rfl, hsize⟩ := h.simulates (R := fun q l => q.contents = l ∧ q.size ≤ n)
    (fun q e q' l hR hcall => by
      obtain ⟨rfl, hsize⟩ := hR
      obtain ⟨hfifo, hsize'⟩ := hcall.fifo hn hsize
      exact ⟨_, hfifo, rfl, hsize'⟩) hstart
  exact ⟨htrace, hsize⟩

/-- **The queue is first in, first out**: after any run, the elements that were pushed are the ones
that were popped, followed by the ones in the queue. The size counts these and is never more than
`n`, the next pop returns the oldest of them, and an iteration visits them from the oldest one on. -/
theorem fifo_of_trace (hn : Fits n) (hq : q.Constructed) (h : Trace Call q es q') :
    ∃ queued, puts es = takes es ++ queued ∧ q'.size = queued.length ∧ q'.size ≤ n ∧
      (q'.empty = false → queued.head? = some q'.pop.1) ∧
      Computes (fun fuel => q'.visit fuel q'.readPos_) queued := by
  obtain ⟨htrace, hsize⟩ := trace_contents hn hq h
  refine ⟨q'.contents, puts_eq_takes_append htrace, q'.length_contents.symm, hsize, fun hempty => ?_,
    q'.visit_contents⟩
  rw [contents_pop (of_decide_eq_false hempty), List.head?_cons]

/-- A queue of two is filled, and one element is popped to make room for another one. -/
theorem fifo_of_trace_two : ∃ q : FixedSizeQueue ℕ 2, ∃ queued, [10, 20, 30] = [10] ++ queued ∧
    q.size = queued.length ∧ q.size ≤ 2 ∧ (q.empty = false → queued.head? = some q.pop.1) ∧
      Computes (fun fuel => q.visit fuel q.readPos_) queued := by
  let q : FixedSizeQueue ℕ 2 := ⟨fun _ => 0, 0, 0⟩
  have hpop : ((q.push 10).push 20).pop.1 = 10 := by decide
  have htrace : Trace Call q [.put 10, .put 20, .take 10, .put 30] (((q.push 10).push 20).pop.2.push 30) := by
    have htaken : Trace Call q [.put 10, .put 20, .take ((q.push 10).push 20).pop.1] ((q.push 10).push 20).pop.2 :=
      .snoc (.snoc (.snoc .nil (.push 10 (by decide))) (.push 20 (by decide))) (.pop (by decide))
    rw [hpop] at htaken
    exact .snoc htaken (.push 30 (by decide))
  exact ⟨_, fifo_of_trace ⟨1, by decide, rfl⟩ ⟨rfl, rfl⟩ htrace⟩

end FixedSizeQueue

/-! ## The keyboard -/

open FixedSizeQueue (Call Constructed)

variable {buffer buffer' : Buffer} {status data sk : UInt8}

/-- An interrupt pushes its byte, or leaves a full queue as it is. -/
theorem isr_call (h : isr status data buffer = .done buffer') :
    buffer.full = true ∧ buffer' = buffer ∨ Call buffer (.put data) buffer' := by
  obtain ⟨-, h⟩ := Outcome.require_bind_eq_done.mp h
  by_cases hfull : buffer.full = true
  · rw [if_pos hfull] at h
    exact .inl ⟨hfull, (Outcome.done.inj h).symm⟩
  · rw [if_neg hfull] at h
    obtain rfl := Outcome.done.inj h
    exact .inr (.push data (Bool.eq_false_of_not_eq_true hfull))

/-- A read pops the byte that it returns. -/
theorem getScanKey_call (h : getScanKey buffer = .done (sk, buffer')) : Call buffer (.take sk) buffer' := by
  rw [getScanKey] at h
  by_cases hempty : buffer.empty = true
  · rw [if_pos hempty] at h
    cases h
  · rw [if_neg hempty] at h
    have hpair : buffer.pop = (sk, buffer') := Outcome.done.inj h
    have hcall : Call buffer (.take buffer.pop.1) buffer.pop.2 := .pop (Bool.eq_false_of_not_eq_true hempty)
    rwa [hpair] at hcall

/-- **The keyboard uses the queue as it should**: it comes about by pushes while it is not full and
pops while it is not empty. -/
theorem Reachable.trace (h : Reachable buffer) : ∃ q es, Constructed q ∧ Trace Call q es buffer := by
  induction h with
  | start hinit => exact ⟨_, [], hinit, .nil⟩
  | step _ hstep ih =>
    obtain ⟨q, es, hq, htrace⟩ := ih
    cases hstep with
    | interrupt hisr =>
      rcases isr_call hisr with ⟨-, rfl⟩ | hcall
      · exact ⟨q, es, hq, htrace⟩
      · exact ⟨q, _, hq, .snoc htrace hcall⟩
    | read hread => exact ⟨q, _, hq, .snoc htrace (getScanKey_call hread)⟩

end Attos.Ps2
