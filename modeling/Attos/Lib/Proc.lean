import Attos.Lib.Outcome

/-!
# Procedures with a state and visible events

A procedure reads and changes a state, emits events that others can see (a
packet it sends, a buffer it hands on), and returns or aborts. What it did
before an abort stays done: the state and the events are part of the result in
every case.

`Emits P x` says that every event of `x` satisfies `P`. It is proved along the
procedure, with the outcome of every check at hand (`emits_require_bind`).
`Keeps x` says that `x` only looks at the state.
-/

namespace Lib

universe u

/-- What a run of a procedure leaves behind. -/
structure Effect (σ ε α : Type u) : Type u where
  /-- the value returned, if the run returned -/
  outcome : Outcome α
  /-- the state at the end -/
  state : σ
  /-- the events, in the order they happened -/
  events : List ε

/-- A procedure over the state `σ` with events `ε`. -/
def Proc (σ ε α : Type u) : Type u := σ → Effect σ ε α

namespace Proc

variable {σ ε α β : Type u}

/-- Run `x`, and `f` after it if `x` returns. -/
protected def bind (x : Proc σ ε α) (f : α → Proc σ ε β) : Proc σ ε β := fun s =>
  match x s with
  | ⟨.done a, t, es⟩ => ⟨(f a t).outcome, (f a t).state, es ++ (f a t).events⟩
  | ⟨.abort, t, es⟩ => ⟨.abort, t, es⟩
  | ⟨.running, t, es⟩ => ⟨.running, t, es⟩

instance : Monad (Proc σ ε) where
  pure a := fun s => ⟨.done a, s, []⟩
  bind := Proc.bind

/-- The state. -/
def get : Proc σ ε σ := fun s => ⟨.done s, s, []⟩

/-- Change the state. -/
def modify (f : σ → σ) : Proc σ ε PUnit := fun s => ⟨.done ⟨⟩, f s, []⟩

/-- Emit an event. -/
def emit (e : ε) : Proc σ ε PUnit := fun s => ⟨.done ⟨⟩, s, [e]⟩

/-- Abort. -/
def abort : Proc σ ε α := fun s => ⟨.abort, s, []⟩

/-- Abort unless `p` holds. -/
def require (p : Prop) [Decidable p] : Proc σ ε PUnit := if p then pure ⟨⟩ else abort

@[simp] theorem pure_run (a : α) (s : σ) : (pure a : Proc σ ε α) s = ⟨.done a, s, []⟩ := rfl

@[simp] theorem modify_run (f : σ → σ) (s : σ) :
    (modify f : Proc σ ε PUnit) s = ⟨.done ⟨⟩, f s, []⟩ := rfl

@[simp] theorem emit_run (e : ε) (s : σ) : (emit e : Proc σ ε PUnit) s = ⟨.done ⟨⟩, s, [e]⟩ := rfl

@[simp] theorem abort_run (s : σ) : (abort : Proc σ ε α) s = ⟨.abort, s, []⟩ := rfl

@[simp] theorem pure_bind (a : α) (f : α → Proc σ ε β) : (pure a >>= f) = f a := rfl

@[simp] theorem get_bind_run (f : σ → Proc σ ε β) (s : σ) : (get >>= f) s = f s s := rfl

@[simp] theorem modify_bind_run (g : σ → σ) (f : PUnit → Proc σ ε β) (s : σ) :
    (modify g >>= f) s = f ⟨⟩ (g s) := rfl

@[simp] theorem emit_bind_run (e : ε) (f : PUnit → Proc σ ε β) (s : σ) :
    (emit e >>= f) s = ⟨(f ⟨⟩ s).outcome, (f ⟨⟩ s).state, e :: (f ⟨⟩ s).events⟩ := rfl

@[simp] theorem abort_bind (f : α → Proc σ ε β) : ((abort : Proc σ ε α) >>= f) = abort := rfl

/-- A sequence whose first part returned. -/
theorem bind_run {x : Proc σ ε α} {s t : σ} {a : α} {es : List ε} (h : x s = ⟨.done a, t, es⟩)
    (f : α → Proc σ ε β) :
    (x >>= f) s = ⟨(f a t).outcome, (f a t).state, es ++ (f a t).events⟩ := by
  change Proc.bind x f s = _
  rw [Proc.bind, h]

@[simp] theorem require_pos {p : Prop} [Decidable p] (h : p) :
    (require p : Proc σ ε PUnit) = pure ⟨⟩ := if_pos h

@[simp] theorem require_neg {p : Prop} [Decidable p] (h : ¬ p) :
    (require p : Proc σ ε PUnit) = abort := if_neg h

/-- The events of a sequence are those of the first procedure and, if it
returned, those of the second. -/
theorem mem_events_bind {x : Proc σ ε α} {f : α → Proc σ ε β} {s : σ} {e : ε} :
    e ∈ ((x >>= f) s).events ↔
      e ∈ (x s).events ∨ ∃ a, (x s).outcome = .done a ∧ e ∈ (f a (x s).state).events := by
  change e ∈ (Proc.bind x f s).events ↔ _
  rw [Proc.bind]
  rcases x s with ⟨_ | _ | _, t, es⟩ <;> simp

/-- Every event of `x` satisfies `P`. -/
def Emits (P : ε → Prop) (x : Proc σ ε α) : Prop := ∀ s, ∀ e ∈ (x s).events, P e

section Emits

variable {P : ε → Prop}

theorem emits_pure (a : α) : Emits P (pure a : Proc σ ε α) := fun _ _ he => by cases he

theorem emits_abort : Emits P (abort : Proc σ ε α) := fun _ _ he => by cases he

theorem emits_get : Emits P (get : Proc σ ε σ) := fun _ _ he => by cases he

theorem emits_modify (f : σ → σ) : Emits P (modify f : Proc σ ε PUnit) := fun _ _ he => by cases he

theorem emits_emit {e : ε} (h : P e) : Emits P (emit e : Proc σ ε PUnit) := fun _ e' he => by
  obtain rfl : e' = e := by simpa using he
  exact h

theorem emits_bind {x : Proc σ ε α} {f : α → Proc σ ε β} (hx : Emits P x)
    (hf : ∀ a, Emits P (f a)) : Emits P (x >>= f) := by
  intro s e he
  rcases mem_events_bind.mp he with he | ⟨a, -, he⟩
  · exact hx s e he
  · exact hf a _ e he

/-- What follows a check may use that it passed. -/
theorem emits_require_bind {p : Prop} [Decidable p] {f : PUnit → Proc σ ε β}
    (hf : p → Emits P (f ⟨⟩)) : Emits P (require p >>= f) := by
  by_cases h : p
  · rw [require_pos h, pure_bind]
    exact hf h
  · rw [require_neg h, abort_bind]
    exact emits_abort

theorem emits_require {p : Prop} [Decidable p] : Emits P (require p : Proc σ ε PUnit) := by
  rw [require]
  split
  · exact emits_pure _
  · exact emits_abort

theorem emits_ite {p : Prop} [Decidable p] {x y : Proc σ ε α} (hx : p → Emits P x)
    (hy : ¬ p → Emits P y) : Emits P (if p then x else y) := by
  split
  · exact hx ‹_›
  · exact hy ‹_›

end Emits

/-- `x` leaves the state as it was. -/
def Keeps (x : Proc σ ε α) : Prop := ∀ s, (x s).state = s

section Keeps

theorem keeps_pure (a : α) : Keeps (pure a : Proc σ ε α) := fun _ => rfl

theorem keeps_abort : Keeps (abort : Proc σ ε α) := fun _ => rfl

theorem keeps_get : Keeps (get : Proc σ ε σ) := fun _ => rfl

theorem keeps_emit (e : ε) : Keeps (emit e : Proc σ ε PUnit) := fun _ => rfl

theorem keeps_bind {x : Proc σ ε α} {f : α → Proc σ ε β} (hx : Keeps x) (hf : ∀ a, Keeps (f a)) :
    Keeps (x >>= f) := by
  intro s
  have hstate := hx s
  change (Proc.bind x f s).state = s
  rw [Proc.bind]
  rcases hrun : x s with ⟨_ | _ | _, t, es⟩
  all_goals
    rw [hrun] at hstate
    obtain rfl : t = s := hstate
  · exact hf _ _
  · rfl
  · rfl

theorem keeps_require {p : Prop} [Decidable p] : Keeps (require p : Proc σ ε PUnit) := by
  rw [require]
  split
  · exact keeps_pure _
  · exact keeps_abort

theorem keeps_ite {p : Prop} [Decidable p] {x y : Proc σ ε α} (hx : Keeps x) (hy : Keeps y) :
    Keeps (if p then x else y) := by
  split
  · exact hx
  · exact hy

end Keeps

end Proc

end Lib
