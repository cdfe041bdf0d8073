import Mathlib.Data.List.Basic

/-!
# Queues

The events of a queue are elements that are put in and elements that are taken
out. A first-in, first-out queue is a list (`Fifo`): an element is put in at the
end, and the one at the front is taken out. Then what was put in is what was
taken out, followed by what is still in the queue, in this order
(`puts_eq_takes_append`).

A structure that does the same with a list of its elements has the same traces
(`Trace.simulates`).
-/

namespace Lib

universe u v w

/-! ## Traces -/

section Traces

variable {σ : Type u} {τ : Type v} {ε : Type w}

/-- The steps from one state to another one, with their events. -/
inductive Trace (step : σ → ε → σ → Prop) : σ → List ε → σ → Prop where
  /-- no steps -/
  | nil {s : σ} : Trace step s [] s
  /-- one more step -/
  | snoc {s t u : σ} {es : List ε} {e : ε} : Trace step s es t → step t e u → Trace step s (es ++ [e]) u

variable {step : σ → ε → σ → Prop} {step' : τ → ε → τ → Prop} {R : σ → τ → Prop} {s s' : σ} {t : τ}
  {es : List ε}

/-- **The simulation rule.** -/
theorem Trace.simulates (h : Trace step s es s')
    (hstep : ∀ s e s' t, R s t → step s e s' → ∃ t', step' t e t' ∧ R s' t') (hR : R s t) :
    ∃ t', Trace step' t es t' ∧ R s' t' := by
  induction h with
  | nil => exact ⟨t, .nil, hR⟩
  | snoc _ hlast ih =>
    obtain ⟨t₁, htrace, hR₁⟩ := ih
    obtain ⟨t₂, hlast', hR₂⟩ := hstep _ _ _ _ hR₁ hlast
    exact ⟨t₂, .snoc htrace hlast', hR₂⟩

end Traces

/-! ## First in, first out -/

variable {α : Type u}

/-- What happens to a queue. -/
inductive QueueEvent (α : Type u) : Type u where
  /-- an element is put in -/
  | put : α → QueueEvent α
  /-- an element is taken out -/
  | take : α → QueueEvent α

/-- The elements that are put in, in this order. -/
def puts : List (QueueEvent α) → List α
  | [] => []
  | .put a :: es => a :: puts es
  | .take _ :: es => puts es

/-- The elements that are taken out, in this order. -/
def takes : List (QueueEvent α) → List α
  | [] => []
  | .put _ :: es => takes es
  | .take a :: es => a :: takes es

@[simp] theorem puts_append (es es' : List (QueueEvent α)) : puts (es ++ es') = puts es ++ puts es' := by
  induction es with
  | nil => rfl
  | cons e es ih => cases e <;> simp [puts, ih]

@[simp] theorem takes_append (es es' : List (QueueEvent α)) : takes (es ++ es') = takes es ++ takes es' := by
  induction es with
  | nil => rfl
  | cons e es ih => cases e <;> simp [takes, ih]

/-- The steps of a queue, which is the list of its elements, the oldest first. -/
inductive Fifo : List α → QueueEvent α → List α → Prop where
  /-- an element is put in at the end -/
  | put (l : List α) (a : α) : Fifo l (.put a) (l ++ [a])
  /-- the one at the front is taken out -/
  | take (a : α) (l : List α) : Fifo (a :: l) (.take a) l

/-- **Nothing is lost, duplicated or reordered.** -/
theorem puts_eq_takes_append {l l' : List α} {es : List (QueueEvent α)} (h : Trace Fifo l es l') :
    l ++ puts es = takes es ++ l' := by
  induction h with
  | nil => exact List.append_nil l
  | snoc _ hlast ih =>
    rw [puts_append, takes_append, ← List.append_assoc, ih]
    cases hlast with
    | put l₁ a => simp only [puts, takes, List.append_nil, List.append_assoc]
    | take a l₁ => simp only [puts, takes, List.append_nil, List.append_assoc, List.singleton_append]

end Lib
