import Mathlib.Data.List.Infix
import Mathlib.Data.List.Induction

/-!
# Names in nested scopes

Objects have absolute paths. A path used in a scope is looked for in that scope
and then in the scopes around it, from the inside out.
-/

namespace Lib

universe u v

variable {α : Type u} {β : Type v}

/-- What a path used in a scope denotes: the object of that path in the innermost
of the scopes around the use that has one. -/
def searchScopes (bound : List α → Option β) (scope path : List α) : Option β :=
  scope.inits.reverse.findSome? fun enclosing => bound (enclosing ++ path)

variable (bound : List α → Option β) (scope path : List α) (a : α)

theorem searchScopes_nil : searchScopes bound [] path = bound path := by
  simp [searchScopes]

/-- One step outwards. -/
theorem searchScopes_concat : searchScopes bound (scope ++ [a]) path =
    (bound (scope ++ [a] ++ path)).or (searchScopes bound scope path) := by
  have hinits : (scope ++ [a]).inits.reverse = (scope ++ [a]) :: scope.inits.reverse := by
    simp [List.inits_append]
  rw [searchScopes, searchScopes, hinits, List.findSome?_cons]
  cases bound (scope ++ [a] ++ path) <;> rfl

/-- The scope of the use comes first. -/
theorem searchScopes_of_bound {bound : List α → Option β} {scope path : List α} {b : β}
    (h : bound (scope ++ path) = some b) : searchScopes bound scope path = some b := by
  induction scope using List.reverseRecOn with
  | nil => rw [searchScopes_nil]; exact h
  | append_singleton scope a _ => rw [searchScopes_concat, h]; rfl

end Lib
