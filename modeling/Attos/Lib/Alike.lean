import Attos.Lib.Outcome

/-!
# Two runs of a program side by side

A program is run twice, in two settings that agree on what it may look at, and
the second run has at least the fuel of the first. `Alike` says what is wanted
of such a pair: a postcondition of the first run, that the second run has the
same outcome, and that the first run comes to an end when it has enough fuel.
The rules for it follow the structure of the program, so that all three are
proved in one go.
-/

namespace Lib

universe u

/-- The runs `x` and `y` are alike. The same outcome is only asked for when the
program is `good`, and when `x` comes to an end or both have the `exact` same
fuel; and `x` has to come to an end only with `enough` fuel. -/
structure Alike {α : Type u} (good exact enough : Prop) (post : α → Prop) (x y : Outcome α) :
    Prop where
  /-- what holds of the result -/
  post : ∀ a, x = .done a → post a
  /-- both runs have the same outcome -/
  same : good → exact ∨ x.Ends → y = x
  /-- the run comes to an end -/
  ends : enough → x.Ends

namespace Alike

open Outcome

variable {α β : Type u} {good good' exact enough enough' : Prop} {p q : α → Prop} {r : β → Prop}
  {x y : Outcome α} {f g : α → Outcome β}

/-- A program that does not depend on the setting -/
theorem of_eq (hpost : ∀ a, x = .done a → p a) (hends : x.Ends) :
    Alike good exact enough p x x :=
  ⟨hpost, fun _ _ => rfl, fun _ => hends⟩

theorem pure {a : α} (h : p a) : Alike good exact enough p (.done a) (.done a) :=
  of_eq (fun _ hb => by cases hb; exact h) (done_ends a)

theorem abort : Alike good exact enough p .abort .abort :=
  of_eq (fun _ hb => by cases hb) (fun hb => by cases hb)

/-- The first run is cut off. -/
theorem running (hexact : exact → y = .running) (henough : ¬ enough) :
    Alike good exact enough p .running y :=
  ⟨nofun, fun _ h => h.elim hexact fun h => absurd rfl h, fun h => absurd h henough⟩

/-- **Sequencing.** The second part may use that the first one returned. -/
theorem bind (hx : Alike good exact enough p x y)
    (hf : ∀ a, x = .done a → p a → Alike good exact enough r (f a) (g a)) :
    Alike good exact enough r (x >>= f) (y >>= g) where
  post b hb := by
    obtain ⟨a, ha, hb⟩ := bind_eq_done.1 hb
    exact (hf a ha (hx.post a ha)).post b hb
  same hgood hends := by
    have hxe : exact ∨ x.Ends := hends.imp_right fun h hr => h (bind_eq_running.2 (.inl hr))
    rw [hx.same hgood hxe]
    cases hcase : x with
    | done a =>
      refine (hf a hcase (hx.post a hcase)).same hgood (hends.imp_right fun h hr => h ?_)
      exact bind_eq_running.2 (.inr ⟨a, hcase, hr⟩)
    | abort => rfl
    | running => rfl
  ends henough := (hx.ends henough).bind fun a ha => (hf a ha (hx.post a ha)).ends henough

/-- A weaker postcondition -/
theorem imp (h : Alike good exact enough p x y) (hpq : ∀ a, x = .done a → p a → q a) :
    Alike good exact enough q x y :=
  ⟨fun a ha => hpq a ha (h.post a ha), h.same, h.ends⟩

/-- The conditions are replaced by those of a part. -/
theorem weaken (h : Alike good exact enough p x y) (hgood : good' → good)
    (henough : enough' → enough) : Alike good' exact enough' p x y :=
  ⟨h.post, fun hg => h.same (hgood hg), fun he => h.ends (henough he)⟩

/-- A check -/
theorem require {c : Prop} [Decidable c] :
    Alike good exact enough (fun _ => c) (Outcome.require c) (Outcome.require c) :=
  of_eq (fun _ h => require_eq_done.1 h) require_ends

/-- A pointer is followed. -/
theorem requireSome {γ : Type} {o : Option γ} {p : γ → Prop} (h : ∀ c, o = some c → p c) :
    Alike good exact enough p (Outcome.requireSome o) (Outcome.requireSome o) := by
  cases o with
  | none => exact abort
  | some c => exact pure (h c rfl)

/-- A case distinction -/
theorem ite {c : Prop} [Decidable c] {x' y' : Outcome α}
    (hpos : c → Alike good exact enough p x y) (hneg : ¬ c → Alike good exact enough p x' y') :
    Alike good exact enough p (if c then x else x') (if c then y else y') := by
  by_cases h : c
  · rw [if_pos h, if_pos h]
    exact hpos h
  · rw [if_neg h, if_neg h]
    exact hneg h

end Alike

end Lib
