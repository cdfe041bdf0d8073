import Mathlib.Tactic

/-!
# Ring buffers

A ring of `n` slots whose users count the entries from the start and never
reduce their counters: entry `k` lies in slot `k % n`. Less than one round of
entries is kept at a time, so two entries that are kept never share a slot.
A `Window` says what the slots of the entries `lo ≤ k < hi` hold.
-/

namespace Lib

universe u

variable {α : Type u} {n : ℕ}

/-- Entries less than one round apart lie in different slots. -/
theorem eq_of_slot_eq {lo j k : ℕ} (hj : lo ≤ j) (hj' : j < lo + n) (hk : lo ≤ k)
    (hk' : k < lo + n) (h : j % n = k % n) : j = k := by
  have hmod : Nat.ModEq n j k := h
  obtain hle | hle := le_total j k
  · have hdvd : n ∣ k - j := (Nat.modEq_iff_dvd' hle).1 hmod
    have : k - j = 0 := Nat.eq_zero_of_dvd_of_lt hdvd (by omega)
    omega
  · have hdvd : n ∣ j - k := (Nat.modEq_iff_dvd' hle).1 hmod.symm
    have : j - k = 0 := Nat.eq_zero_of_dvd_of_lt hdvd (by omega)
    omega

/-- Entry `k` satisfies `P k`, for all entries from `lo` to below `hi`. -/
def Window (n : ℕ) (slots : ℕ → α) (lo hi : ℕ) (P : ℕ → α → Prop) : Prop :=
  ∀ k, lo ≤ k → k < hi → P k (slots (k % n))

namespace Window

variable {slots : ℕ → α} {lo lo' hi hi' i : ℕ} {P Q : ℕ → α → Prop} {a : α}

/-- No entries are kept. -/
theorem empty (h : hi ≤ lo) : Window n slots lo hi P := by
  intro k hlo hhi
  omega

/-- Fewer entries are kept. -/
theorem shrink (h : Window n slots lo hi P) (hlo : lo ≤ lo') (hhi : hi' ≤ hi) :
    Window n slots lo' hi' P :=
  fun k hk hk' => h k (hlo.trans hk) (hk'.trans_le hhi)

/-- The entries satisfy something weaker. -/
theorem imp (h : Window n slots lo hi P) (hPQ : ∀ k a, lo ≤ k → k < hi → P k a → Q k a) :
    Window n slots lo hi Q :=
  fun k hk hk' => hPQ k _ hk hk' (h k hk hk')

/-- A slot of none of the entries is written. -/
theorem update (h : Window n slots lo hi P) (hi' : ∀ k, lo ≤ k → k < hi → k % n ≠ i) :
    Window n (Function.update slots i a) lo hi P := by
  intro k hk hk'
  rw [Function.update_of_ne (hi' k hk hk')]
  exact h k hk hk'

/-- The slot of an entry of the same round that is not kept is written. -/
theorem update_slot {j base : ℕ} (h : Window n slots lo hi P) (hlo : base ≤ lo)
    (hhi : hi ≤ base + n) (hj : base ≤ j) (hj' : j < base + n) (hne : j < lo ∨ hi ≤ j) :
    Window n (Function.update slots (j % n) a) lo hi P := by
  refine h.update fun k hk hk' hslot => ?_
  have : k = j := eq_of_slot_eq (hlo.trans hk) (hk'.trans_le hhi) hj hj' hslot
  omega

/-- **An entry is added at the end.** -/
theorem push (h : Window n slots lo hi P) (hn : hi < lo + n) (ha : P hi a) :
    Window n (Function.update slots (hi % n) a) lo (hi + 1) P := by
  intro k hk hk'
  obtain rfl | hlt := eq_or_lt_of_le (Nat.lt_succ_iff.1 hk')
  · rw [Function.update_self]
    exact ha
  · refine h.update_slot le_rfl hn.le (hk.trans hlt.le) hn (.inr le_rfl) k hk hlt

end Window

end Lib
