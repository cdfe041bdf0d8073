import Mathlib.Tactic

/-!
# Ones' complement sums

Addition with an end-around carry, on the numbers up to `m`: a carry out of the top counts as
one more at the bottom. With `m` in place of zero it is addition modulo `m`
(`onesSum_spec`), and a sum is the number zero only if all of its terms are. So the sum is
known from its remainder and from whether it is zero (`eq_of_ones`).
-/

namespace Lib

/-- Addition with an end-around carry. -/
def onesAdd (m a b : ℕ) : ℕ := if a + b ≤ m then a + b else a + b - m

/-- The sum of a list, from an initial value on. -/
def onesSum (m : ℕ) (l : List ℕ) (init : ℕ) : ℕ := l.foldl (onesAdd m) init

variable {m a b : ℕ}

theorem onesAdd_le (ha : a ≤ m) (hb : b ≤ m) : onesAdd m a b ≤ m := by
  rw [onesAdd]
  split <;> omega

/-- A carry does not change the remainder. -/
theorem onesAdd_mod : onesAdd m a b % m = (a + b) % m := by
  rw [onesAdd]
  split
  case isTrue => rfl
  case isFalse h =>
    have hsub : a + b - m + m = a + b := Nat.sub_add_cancel (Nat.le_of_not_le h)
    rw [← hsub, Nat.add_mod_right, hsub]

theorem onesAdd_eq_zero : onesAdd m a b = 0 ↔ a = 0 ∧ b = 0 := by
  rw [onesAdd]
  split <;> omega

/-- **The sum of a list** is a number up to `m` with the remainder of the plain sum, and zero
only if this is zero. -/
theorem onesSum_spec {l : List ℕ} {init : ℕ} (hl : ∀ a ∈ l, a ≤ m) (hinit : init ≤ m) :
    onesSum m l init ≤ m ∧ onesSum m l init % m = (init + l.sum) % m ∧
      (onesSum m l init = 0 ↔ init + l.sum = 0) := by
  induction l generalizing init with
  | nil => exact ⟨hinit, rfl, Iff.rfl⟩
  | cons a l ih =>
    have ha : a ≤ m := hl a (List.mem_cons_self ..)
    obtain ⟨hle, hmod, hzero⟩ := ih (fun b hb => hl b (List.mem_cons_of_mem a hb)) (onesAdd_le hinit ha)
    refine ⟨hle, ?_, ?_⟩
    · calc onesSum m (a :: l) init % m = (onesAdd m init a + l.sum) % m := hmod
        _ = (init + a + l.sum) % m := Nat.ModEq.add_right _ onesAdd_mod
        _ = (init + (a :: l).sum) % m := by rw [List.sum_cons, Nat.add_assoc]
    · calc onesSum m (a :: l) init = 0 ↔ onesAdd m init a + l.sum = 0 := hzero
        _ ↔ init + (a :: l).sum = 0 := by rw [Nat.add_eq_zero_iff, onesAdd_eq_zero, List.sum_cons]; omega

/-- A number up to `m` is known from its remainder and from whether it is zero. -/
theorem eq_of_ones (ha : a ≤ m) (hb : b ≤ m) (hmod : a % m = b % m) (hzero : a = 0 ↔ b = 0) : a = b := by
  obtain rfl | ha := ha.eq_or_lt
  · obtain rfl | hb := hb.eq_or_lt
    · rfl
    · rw [Nat.mod_self, Nat.mod_eq_of_lt hb] at hmod
      omega
  · obtain rfl | hb := hb.eq_or_lt
    · rw [Nat.mod_self, Nat.mod_eq_of_lt ha] at hmod
      omega
    · rwa [Nat.mod_eq_of_lt ha, Nat.mod_eq_of_lt hb] at hmod

end Lib
