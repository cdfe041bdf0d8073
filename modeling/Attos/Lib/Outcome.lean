import Mathlib.Tactic

/-!
# Outcomes of a call

A call of a modelled program either returns a value, fails one of its checks
and aborts, or is cut off by the fuel bound of a loop while it is still
running. The three cases are kept apart: `abort` is behaviour of the program,
`running` is not, and a termination claim is exactly that some fuel makes the
outcome something other than `running`.
-/

namespace Lib

universe u v

/-- What a call does: it returns, it aborts, or the fuel ran out first. -/
inductive Outcome (α : Type u) : Type u where
  /-- the call returned a value -/
  | done : α → Outcome α
  /-- a check of the program failed -/
  | abort : Outcome α
  /-- the fuel bound was reached; the call is still running -/
  | running : Outcome α
  deriving DecidableEq

namespace Outcome

variable {α : Type u} {β : Type v}

/-- Sequencing: the first call that does not return decides the outcome. -/
protected def bind : Outcome α → (α → Outcome β) → Outcome β
  | done a, f => f a
  | abort, _ => abort
  | running, _ => running

instance : Monad Outcome where
  pure := done
  bind := Outcome.bind

/-- The call returned. -/
def Returns (x : Outcome α) : Prop := ∃ a, x = done a

instance : DecidablePred (@Returns α)
  | done a => isTrue ⟨a, rfl⟩
  | abort => isFalse fun ⟨_, h⟩ => by cases h
  | running => isFalse fun ⟨_, h⟩ => by cases h

/-- The call came to an end, by returning or by aborting. -/
def Ends (x : Outcome α) : Prop := x ≠ running

@[simp] theorem pure_eq (a : α) : (pure a : Outcome α) = done a := rfl

section Bind

variable {α β : Type u}

@[simp] theorem done_bind (a : α) (f : α → Outcome β) : (done a >>= f) = f a := rfl

@[simp] theorem abort_bind (f : α → Outcome β) : (abort >>= f) = abort := rfl

@[simp] theorem running_bind (f : α → Outcome β) : (running >>= f) = running := rfl

/-- Inversion for `bind`. -/
theorem bind_eq_done {x : Outcome α} {f : α → Outcome β} {b : β} :
    (x >>= f) = done b ↔ ∃ a, x = done a ∧ f a = done b := by
  cases x with
  | done a => simp
  | abort => simp
  | running => simp

/-- A sequence aborts in its first or in its second part. -/
theorem bind_eq_abort {x : Outcome α} {f : α → Outcome β} :
    (x >>= f) = abort ↔ x = abort ∨ ∃ a, x = done a ∧ f a = abort := by
  cases x with
  | done a => simp
  | abort => simp
  | running => simp

/-- A sequence is cut off in its first or in its second part. -/
theorem bind_eq_running {x : Outcome α} {f : α → Outcome β} :
    (x >>= f) = running ↔ x = running ∨ ∃ a, x = done a ∧ f a = running := by
  cases x with
  | done a => simp
  | abort => simp
  | running => simp

/-- A sequence returns if both its parts do. -/
theorem bind_returns {x : Outcome α} {f : α → Outcome β} :
    (x >>= f).Returns ↔ ∃ a, x = done a ∧ (f a).Returns := by
  cases x with
  | done a => simp
  | abort => simp [Returns]
  | running => simp [Returns]

/-- A sequence comes to an end if both its parts do. -/
theorem Ends.bind {x : Outcome α} {f : α → Outcome β} (hx : x.Ends)
    (hf : ∀ a, x = done a → (f a).Ends) : (x >>= f).Ends := by
  cases x with
  | done a => exact hf a rfl
  | abort => rw [abort_bind]; simp [Ends]
  | running => exact absurd rfl hx

end Bind

/-- Check a condition of the program; the call aborts when it fails. -/
def require (p : Prop) [Decidable p] : Outcome Unit := if p then done () else abort

@[simp] theorem require_eq_done {p : Prop} [Decidable p] {u : Unit} :
    require p = done u ↔ p := by
  by_cases h : p <;> simp [require, h]

@[simp] theorem require_eq_abort {p : Prop} [Decidable p] : require p = abort ↔ ¬ p := by
  by_cases h : p <;> simp [require, h]

theorem require_pos {p : Prop} [Decidable p] (h : p) : require p = done () := if_pos h

theorem require_neg {p : Prop} [Decidable p] (h : ¬ p) : require p = abort := if_neg h

@[simp] theorem require_true [Decidable True] : require True = done () := if_pos trivial

@[simp] theorem require_false [Decidable False] : require False = abort := if_neg not_false

theorem require_ends {p : Prop} [Decidable p] : (require p).Ends := by
  by_cases h : p <;> simp [require, h, Ends]

/-- Check that a pointer is not null, and follow it. -/
def requireSome {α : Type} : Option α → Outcome α
  | some a => done a
  | none => abort

@[simp] theorem requireSome_some {α : Type} (a : α) : requireSome (some a) = done a := rfl

@[simp] theorem requireSome_eq_done {α : Type} {o : Option α} {a : α} :
    requireSome o = done a ↔ o = some a := by
  cases o <;> simp [requireSome]

/-- Inversion for a sequence that starts with a check. -/
theorem require_bind_eq_done {α : Type} {p : Prop} [Decidable p] {f : Unit → Outcome α} {a : α} :
    (require p >>= f) = done a ↔ p ∧ f () = done a := by
  by_cases h : p <;> simp [require, h]

/-- A sequence that starts with a check returns if the check passes and the
rest returns. -/
theorem require_bind_returns {α : Type} {p : Prop} [Decidable p] {f : Unit → Outcome α} :
    (require p >>= f).Returns ↔ p ∧ (f ()).Returns := by
  by_cases h : p <;> simp [require, h, Returns]

@[simp] theorem done_returns (a : α) : (done a).Returns := ⟨a, rfl⟩

@[simp] theorem abort_not_returns : ¬ (abort : Outcome α).Returns := fun ⟨_, h⟩ => by cases h

theorem done_ends (a : α) : (done a).Ends := fun h => by cases h

/-- A sequence that starts with a check is cut off only behind the check. -/
theorem require_bind_eq_running {α : Type} {p : Prop} [Decidable p] {f : Unit → Outcome α} :
    (require p >>= f) = running ↔ p ∧ f () = running := by
  by_cases h : p <;> simp [require, h]

end Outcome

end Lib
