import Attos.Lib.Outcome

/-!
# What a call with fuel computes

A loop is modelled with a fuel argument. It computes `a` if it is cut off below
some amount of fuel and returns `a` with at least that much. A loop computes at
most one value (`Computes.unique`), and the value of a sequence of calls is
found along the sequence (`Computes.bind`).
-/

namespace Lib

universe u

variable {α β : Type u}

/-- The call returns `a`, given enough fuel, and never anything else. -/
def Computes (f : ℕ → Outcome α) (a : α) : Prop :=
  ∃ n, (∀ k < n, f k = .running) ∧ ∀ k, n ≤ k → f k = .done a

namespace Computes

variable {f : ℕ → Outcome α} {a b : α}

/-- A call that needs no fuel. -/
theorem of_done (h : ∀ n, f n = .done a) : Computes f a :=
  ⟨0, fun _ hk => absurd hk (Nat.not_lt_zero _), fun k _ => h k⟩

/-- A pass of a loop uses one unit of fuel. -/
theorem step {g : ℕ → Outcome α} (h₀ : f 0 = .running) (hs : ∀ n, f (n + 1) = g n)
    (hg : Computes g a) : Computes f a := by
  obtain ⟨n, hlo, hhi⟩ := hg
  refine ⟨n + 1, fun k hk => ?_, fun k hk => ?_⟩
  · cases k with
    | zero => exact h₀
    | succ k => rw [hs]; exact hlo k (by omega)
  · cases k with
    | zero => omega
    | succ k => rw [hs]; exact hhi k (by omega)

/-- A sequence computes what its second call computes from the value of the
first. -/
theorem bind {g : ℕ → α → Outcome β} {b : β} (hf : Computes f a)
    (hg : Computes (fun n => g n a) b) : Computes (fun n => f n >>= g n) b := by
  obtain ⟨n, hlo, hhi⟩ := hf
  obtain ⟨m, hlo', hhi'⟩ := hg
  refine ⟨max n m, fun k hk => ?_, fun k hk => ?_⟩
  · by_cases hkn : k < n
    · simp [hlo k hkn]
    · simp only [hhi k (by omega), Outcome.done_bind]
      exact hlo' k (by omega)
  · simp only [hhi k (by omega), Outcome.done_bind]
    exact hhi' k (by omega)

/-- A call computes at most one value. -/
theorem unique (ha : Computes f a) (hb : Computes f b) : a = b := by
  obtain ⟨n, -, hhi⟩ := ha
  obtain ⟨m, -, hhi'⟩ := hb
  have h := (hhi (max n m) (by omega)).symm.trans (hhi' (max n m) (by omega))
  simpa using h

/-- What is returned with some fuel is what the call computes. -/
theorem eq_of_done {n : ℕ} (ha : Computes f a) (h : f n = .done b) : a = b := by
  obtain ⟨m, hlo, hhi⟩ := ha
  by_cases hnm : n < m
  · rw [hlo n hnm] at h
    cases h
  · rw [hhi n (by omega)] at h
    simpa using h

/-- Some fuel is enough. -/
theorem exists_done (ha : Computes f a) : ∃ n, f n = .done a := by
  obtain ⟨n, -, hhi⟩ := ha
  exact ⟨n, hhi n le_rfl⟩

end Computes

end Lib
