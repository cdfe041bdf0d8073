import Mathlib.Order.Lattice
import Mathlib.Logic.Function.Basic

/-!
# Doubly linked lists

Lists that are linked in both directions, given by the pointers of their elements.
The elements are ordered, and a list runs upwards. Appending an element that is in no
list to the end of one, and taking any element out, keep the pointers of the two
directions inverse to each other.
-/

namespace Lib

universe u

/-- The pointers of the two directions are inverse to each other. -/
structure DoublyLinked {α : Type u} [LT α] (next prev : α → Option α) : Prop where
  /-- backwards after forwards -/
  prev_of_next {a b : α} : next a = some b → prev b = some a
  /-- forwards after backwards -/
  next_of_prev {a b : α} : prev b = some a → next a = some b
  /-- a list runs upwards -/
  lt_of_next {a b : α} : next a = some b → a < b

/-- The pointers of one direction after an element was taken out. -/
def bypass {α : Type u} [DecidableEq α] (next : α → Option α) (a : α) : α → Option α := fun b =>
  if b = a then none else if next b = some a then next a else next b

theorem ne_of_bypass {α : Type u} [DecidableEq α] {next : α → Option α} {a b c : α}
    (h : bypass next a b = some c) : b ≠ a := by
  rintro rfl
  simp [bypass] at h

theorem bypass_of_none {α : Type u} [DecidableEq α] {next : α → Option α} {a : α}
    (h : ∀ b, next b ≠ some a) : bypass next a = Function.update next a none := by
  funext b
  by_cases hb : b = a
  · simp [bypass, hb]
  · simp [bypass, hb, h b]

theorem bypass_of_some {α : Type u} [DecidableEq α] {next : α → Option α} {a b : α} (hne : b ≠ a)
    (h : ∀ c, next c = some a ↔ c = b) :
    bypass next a = Function.update (Function.update next a none) b (next a) := by
  funext c
  by_cases hc : c = a
  · simp [bypass, hc, Function.update_of_ne hne.symm]
  · by_cases hcb : c = b
    · subst hcb
      simp [bypass, hc, (h c).2 rfl]
    · simp [bypass, hc, hcb, h c]

namespace DoublyLinked

variable {α : Type u} [LinearOrder α] {next prev : α → Option α} {a b : α}

/-- Append an element to the end of a list. -/
theorem append (h : DoublyLinked next prev) (ha : next a = none) (hb : next b = none)
    (hb' : prev b = none) (hlt : a < b) :
    DoublyLinked (Function.update next a (some b)) (Function.update prev b (some a)) where
  prev_of_next {x y} hxy := by
    by_cases hx : x = a
    · subst hx
      obtain rfl : b = y := by simpa using hxy
      simp
    · rw [Function.update_of_ne hx] at hxy
      have hy : y ≠ b := by
        rintro rfl
        rw [h.prev_of_next hxy] at hb'
        cases hb'
      rw [Function.update_of_ne hy]
      exact h.prev_of_next hxy
  next_of_prev {x y} hxy := by
    by_cases hy : y = b
    · subst hy
      obtain rfl : a = x := by simpa using hxy
      simp
    · rw [Function.update_of_ne hy] at hxy
      have hx : x ≠ a := by
        rintro rfl
        rw [h.next_of_prev hxy] at ha
        cases ha
      rw [Function.update_of_ne hx]
      exact h.next_of_prev hxy
  lt_of_next {x y} hxy := by
    by_cases hx : x = a
    · subst hx
      obtain rfl : b = y := by simpa using hxy
      exact hlt
    · rw [Function.update_of_ne hx] at hxy
      exact h.lt_of_next hxy

/-- Take an element out of its list. -/
theorem remove (h : DoublyLinked next prev) (a : α) :
    DoublyLinked (bypass next a) (bypass prev a) where
  prev_of_next {x y} hxy := by
    rw [bypass] at hxy ⊢
    split at hxy
    · cases hxy
    · rename_i hx
      split at hxy
      · rename_i hxa
        have hya := h.prev_of_next hxy
        rw [if_neg (h.lt_of_next hxy).ne', if_pos hya]
        exact h.prev_of_next hxa
      · rename_i hxa
        have hyx := h.prev_of_next hxy
        have hy : y ≠ a := fun e => hxa (e ▸ hxy)
        rw [if_neg hy, hyx, if_neg fun e => hx (Option.some.inj e)]
  next_of_prev {x y} hxy := by
    rw [bypass] at hxy ⊢
    split at hxy
    · cases hxy
    · rename_i hy
      split at hxy
      · rename_i hya
        have hxa := h.next_of_prev hxy
        rw [if_neg (h.lt_of_next hxa).ne, if_pos hxa]
        exact h.next_of_prev hya
      · rename_i hya
        have hxy' := h.next_of_prev hxy
        have hx : x ≠ a := fun e => hya (e ▸ hxy)
        rw [if_neg hx, hxy', if_neg fun e => hy (Option.some.inj e)]
  lt_of_next {x y} hxy := by
    rw [bypass] at hxy
    split at hxy
    · cases hxy
    · split at hxy
      · rename_i hxa
        exact (h.lt_of_next hxa).trans (h.lt_of_next hxy)
      · exact h.lt_of_next hxy

end DoublyLinked

end Lib
