import Attos.Lib.Bytes

/-!
# Stores of numbers, low byte first

A number that is stored is read back, and a store is not seen in the numbers next to it.
-/

namespace Lib

/-- The two bytes of a 16-bit number, low byte first. -/
def putLe16 (n : ℕ) : List UInt8 := [UInt8.ofNat n, UInt8.ofNat (n / 2 ^ 8)]

/-- Store the lowest 16 bits of a number. -/
def store16 (m : ℕ → UInt8) (a n : ℕ) : ℕ → UInt8 := storeBytes m a (putLe16 n)

/-- The four bytes of a 32-bit number, low byte first. -/
def putLe32 (n : ℕ) : List UInt8 :=
  [UInt8.ofNat n, UInt8.ofNat (n / 2 ^ 8), UInt8.ofNat (n / 2 ^ 16), UInt8.ofNat (n / 2 ^ 24)]

/-- Store a 32-bit number. -/
def store32 (m : ℕ → UInt8) (a n : ℕ) : ℕ → UInt8 := storeBytes m a (putLe32 n)

section

variable {m m' : ℕ → UInt8} {a b i n : ℕ} {l : List UInt8}

@[simp] theorem length_putLe16 (n : ℕ) : (putLe16 n).length = 2 := rfl

@[simp] theorem length_putLe32 (n : ℕ) : (putLe32 n).length = 4 := rfl

theorem storeBytes_of_not (h : i < a ∨ a + l.length ≤ i) : storeBytes m a l i = m i :=
  if_neg (by omega)

/-- A store changes two bytes. -/
theorem store16_of_not (h : i < a ∨ a + 2 ≤ i) : store16 m a n i = m i := storeBytes_of_not h

/-- A store changes four bytes. -/
theorem store32_of_not (h : i < a ∨ a + 4 ≤ i) : store32 m a n i = m i := storeBytes_of_not h

theorem le16_congr (h : ∀ i < 2, m' (a + i) = m (a + i)) : le16 m' a = le16 m a := by
  rw [le16, le16, ← Nat.add_zero a, h 0 Nat.two_pos, Nat.add_zero, h 1 Nat.one_lt_two]

theorem le32_congr (h : ∀ i < 4, m' (a + i) = m (a + i)) : le32 m' a = le32 m a := by
  have hhi : le16 m' (a + 2) = le16 m (a + 2) := le16_congr fun i hi => by
    rw [Nat.add_assoc]
    exact h (2 + i) (by omega)
  rw [le32, le32, le16_congr fun i hi => h i (by omega), hhi]

/-- The lowest 16 bits are read back. -/
theorem le16_store16 (m : ℕ → UInt8) (a n : ℕ) : le16 (store16 m a n) a = n % 2 ^ 16 := by
  have hstored : Stores (store16 m a n) a (putLe16 n) := Stores.storeBytes_self
  have hbyte : ∀ i < 2, store16 m a n (a + i) = view (putLe16 n) i := hstored
  have h₀ := hbyte 0 (by decide)
  have h₁ := hbyte 1 (by decide)
  rw [Nat.add_zero] at h₀
  rw [le16, h₀, h₁]
  simp only [view, putLe16, List.getD_cons_zero, List.getD_cons_succ, UInt8.toNat_ofNat']
  omega

/-- A store is not seen in other numbers. -/
theorem le16_store16_of_apart (h : b + 2 ≤ a ∨ a + 2 ≤ b) : le16 (store16 m a n) b = le16 m b :=
  le16_congr fun i hi => store16_of_not (by omega)

/-- A store into the lowest word of a 64-bit number. -/
theorem le64_store16 (m : ℕ → UInt8) (a n : ℕ) :
    le64 (store16 m a n) a = le64 m a / 2 ^ 16 * 2 ^ 16 + n % 2 ^ 16 := by
  have h₁ : le16 (store16 m a n) (a + 2) = le16 m (a + 2) := le16_store16_of_apart (.inr le_rfl)
  have h₂ : le16 (store16 m a n) (a + 4) = le16 m (a + 4) := le16_store16_of_apart (.inr (by omega))
  have h₃ : le16 (store16 m a n) (a + 4 + 2) = le16 m (a + 4 + 2) := le16_store16_of_apart (.inr (by omega))
  have hlt := le16_lt m a
  rw [le64, le32, le32, le16_store16, h₁, h₂, h₃, le64, le32, le32]
  omega

/-- A 32-bit number is read back. -/
theorem le32_store32 (m : ℕ → UInt8) (a : ℕ) (hn : n < 2 ^ 32) : le32 (store32 m a n) a = n := by
  have hstored : Stores (store32 m a n) a (putLe32 n) := Stores.storeBytes_self
  have hbyte : ∀ i < 4, store32 m a n (a + i) = view (putLe32 n) i := hstored
  have h₀ := hbyte 0 (by decide)
  have h₁ := hbyte 1 (by decide)
  have h₂ := hbyte 2 (by decide)
  have h₃ := hbyte 3 (by decide)
  rw [Nat.add_zero] at h₀
  simp only [le32, le16, Nat.add_assoc, Nat.reduceAdd, h₀, h₁, h₂, h₃]
  simp only [view, putLe32, List.getD_cons_zero, List.getD_cons_succ, UInt8.toNat_ofNat']
  omega

/-- A store is not seen in other numbers. -/
theorem le32_store32_of_apart (h : b + 4 ≤ a ∨ a + 4 ≤ b) : le32 (store32 m a n) b = le32 m b :=
  le32_congr fun i hi => store32_of_not (by omega)

/-- The halves of a 64-bit number are stored one after the other. -/
theorem le64_store32_store32 {lo hi : ℕ} (m : ℕ → UInt8) (a : ℕ) (hlo : lo < 2 ^ 32) (hhi : hi < 2 ^ 32) :
    le64 (store32 (store32 m a lo) (a + 4) hi) a = lo + 2 ^ 32 * hi := by
  rw [le64, le32_store32_of_apart (.inl le_rfl), le32_store32 m a hlo, le32_store32 _ (a + 4) hhi]

end

end Lib
