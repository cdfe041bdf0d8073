import Mathlib.Tactic

/-!
# Machine words as numbers

Unsigned machine arithmetic on natural numbers: a result is reduced modulo the
width of its type wherever the program could leave the range.
-/

namespace Lib

/-- Conversion to a 16-bit unsigned integer. -/
def u16 (n : ℕ) : ℕ := n % 2 ^ 16

/-- Conversion to a 32-bit unsigned integer. -/
def u32 (n : ℕ) : ℕ := n % 2 ^ 32

/-- Conversion to a 64-bit unsigned integer. -/
def u64 (n : ℕ) : ℕ := n % 2 ^ 64

/-- Subtraction of 32-bit unsigned integers. -/
def sub32 (a b : ℕ) : ℕ := u32 (a + 2 ^ 32 - b)

/-- Subtraction of 64-bit unsigned integers. -/
def sub64 (a b : ℕ) : ℕ := u64 (a + 2 ^ 64 - b)

theorem u16_of_lt {n : ℕ} (h : n < 2 ^ 16) : u16 n = n := Nat.mod_eq_of_lt h

theorem u32_of_lt {n : ℕ} (h : n < 2 ^ 32) : u32 n = n := Nat.mod_eq_of_lt h

theorem u64_of_lt {n : ℕ} (h : n < 2 ^ 64) : u64 n = n := Nat.mod_eq_of_lt h

theorem sub32_of_le {a b : ℕ} (h : b ≤ a) (ha : a < 2 ^ 32) : sub32 a b = a - b := by
  rw [sub32, u32]
  omega

theorem sub64_of_le {a b : ℕ} (h : b ≤ a) (ha : a < 2 ^ 64) : sub64 a b = a - b := by
  rw [sub64, u64]
  omega

end Lib
