import Mathlib.Tactic

/-!
# Reachable states

The states a system can be in: those that `init` allows, and those a `step`
leads to from a reachable one. A property that holds initially and survives
every step holds of every reachable state (`Reach.invariant`).
-/

namespace Lib

universe u

variable {σ : Type u}

/-- The states reached from `init` by any number of steps. -/
inductive Reach (init : σ → Prop) (step : σ → σ → Prop) : σ → Prop where
  /-- an initial state is reachable -/
  | start {s : σ} : init s → Reach init step s
  /-- a step from a reachable state leads to a reachable state -/
  | step {s t : σ} : Reach init step s → step s t → Reach init step t

namespace Reach

variable {init : σ → Prop} {step step' : σ → σ → Prop} {s : σ}

/-- **The invariant rule.** -/
theorem invariant (I : σ → Prop) (hs : Reach init step s) (hinit : ∀ s, init s → I s)
    (hstep : ∀ s t, I s → step s t → I t) : I s := by
  induction hs with
  | start h => exact hinit _ h
  | step _ h ih => exact hstep _ _ ih h

/-- A system with fewer steps reaches fewer states. -/
theorem mono (hs : Reach init step s) (h : ∀ s t, step s t → step' s t) : Reach init step' s := by
  induction hs with
  | start h₀ => exact .start h₀
  | step _ hst ih => exact .step ih (h _ _ hst)

/-- Any number of steps from a reachable state lead to a reachable state. -/
theorem steps {t : σ} (hs : Reach init step s) (h : Relation.ReflTransGen step s t) : Reach init step t := by
  induction h with
  | refl => exact hs
  | tail _ hst ih => exact .step ih hst

end Reach

end Lib
