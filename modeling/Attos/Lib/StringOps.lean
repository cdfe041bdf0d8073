import Mathlib.Tactic

/-!
# String instructions

The repeated string instructions go through memory one byte after the other, in the order of the
addresses (`movs`, `stos`, `cmps`). What the next address is is a parameter, as address registers
have different widths and wrap around.

A copy reads a byte after the bytes in front of it are written (`movs_dest`). So it is a copy of the
source if no byte of the source is written before it is read (`movs_apart`), and repeats the first
bytes of the source if the destination begins inside of it (`movs_overlap`).
-/

namespace Lib

universe u v

section

variable {A : Type u} {B : Type v} (next : A → A)

/-- `repe cmps`: compare up to `n` units. The result is the zero flag and the addresses behind the
last ones that were compared. If there is nothing to compare, the zero flag is as it was. -/
def cmps [DecidableEq B] (m : A → B) : ℕ → Bool → A → A → Bool × A × A
  | 0, zf, src, dst => (zf, src, dst)
  | n + 1, _, src, dst =>
    if m src = m dst then cmps m n true (next src) (next dst) else (false, next src, next dst)

variable [DecidableEq A]

/-- `rep movs`: copy `n` units. -/
def movs : ℕ → (A → B) → A → A → (A → B)
  | 0, m, _, _ => m
  | n + 1, m, src, dst => movs n (Function.update m dst (m src)) (next src) (next dst)

/-- `rep stos`: store a unit `n` times. -/
def stos (b : B) : ℕ → (A → B) → A → (A → B)
  | 0, m, _ => m
  | n + 1, m, dst => stos b n (Function.update m dst b) (next dst)

end

section

variable {A : Type u} {B : Type v} {next : A → A} {m : A → B} {src dst a : A} {b : B} {n i k : ℕ}

section Compare

variable [DecidableEq B] {zf : Bool}

/-- **Equal blocks** are compared to their ends. -/
theorem cmps_of_eq (hpos : 0 < n) (h : ∀ i < n, m (next^[i] src) = m (next^[i] dst)) :
    cmps next m n zf src dst = (true, next^[n] src, next^[n] dst) := by
  induction n generalizing zf src dst with
  | zero => exact absurd hpos (Nat.lt_irrefl 0)
  | succ n ih =>
    have hfirst : m src = m dst := h 0 n.succ_pos
    rw [cmps, if_pos hfirst]
    cases n with
    | zero => rfl
    | succ n => exact ih n.succ_pos fun i hi => h (i + 1) (Nat.succ_lt_succ hi)

/-- **The comparison ends** behind the first units that differ. -/
theorem cmps_of_ne (hi : i < n) (heq : ∀ j < i, m (next^[j] src) = m (next^[j] dst))
    (hne : m (next^[i] src) ≠ m (next^[i] dst)) :
    cmps next m n zf src dst = (false, next^[i + 1] src, next^[i + 1] dst) := by
  induction i generalizing n zf src dst with
  | zero =>
    obtain ⟨n, rfl⟩ := Nat.exists_eq_succ_of_ne_zero (Nat.ne_of_gt hi)
    have hfirst : m src ≠ m dst := hne
    rw [cmps, if_neg hfirst]
    rfl
  | succ i ih =>
    obtain ⟨n, rfl⟩ := Nat.exists_eq_succ_of_ne_zero (Nat.ne_of_gt (Nat.zero_lt_of_lt hi))
    have hfirst : m src = m dst := heq 0 i.succ_pos
    rw [cmps, if_pos hfirst]
    exact ih (Nat.lt_of_succ_lt_succ hi) (fun j hj => heq (j + 1) (Nat.succ_lt_succ hj)) hne

end Compare

variable [DecidableEq A]

/-- The last unit that is copied. -/
theorem movs_succ (n : ℕ) (m : A → B) (src dst : A) : movs next (n + 1) m src dst =
    Function.update (movs next n m src dst) (next^[n] dst) (movs next n m src dst (next^[n] src)) := by
  induction n generalizing m src dst with
  | zero => rfl
  | succ n ih =>
    rw [movs, ih, Function.iterate_succ_apply, Function.iterate_succ_apply]
    rfl

/-- A copy changes the destination only. -/
theorem movs_other (h : ∀ i < n, a ≠ next^[i] dst) : movs next n m src dst a = m a := by
  induction n with
  | zero => rfl
  | succ n ih =>
    rw [movs_succ, Function.update_of_ne (h n n.lt_succ_self)]
    exact ih fun i hi => h i (hi.trans n.lt_succ_self)

/-- **What is copied** to a place is what the source holds at that time. -/
theorem movs_dest (hinj : ∀ i < n, ∀ j < n, next^[i] dst = next^[j] dst → i = j) (hi : i < n) :
    movs next n m src dst (next^[i] dst) = movs next i m src dst (next^[i] src) := by
  induction n with
  | zero => exact absurd hi i.not_lt_zero
  | succ n ih =>
    rw [movs_succ]
    obtain hlt | rfl := Nat.lt_succ_iff_lt_or_eq.mp hi
    · have hne : next^[i] dst ≠ next^[n] dst := fun heq => hlt.ne (hinj i hi n n.lt_succ_self heq)
      rw [Function.update_of_ne hne]
      exact ih (fun i hi j hj => hinj i (hi.trans n.lt_succ_self) j (hj.trans n.lt_succ_self)) hlt
    · exact Function.update_self ..

/-- **The source is copied** if no unit of it is overwritten before it is read. -/
theorem movs_apart (hinj : ∀ i < n, ∀ j < n, next^[i] dst = next^[j] dst → i = j)
    (hahead : ∀ i < n, ∀ j < i, next^[i] src ≠ next^[j] dst) (hi : i < n) :
    movs next n m src dst (next^[i] dst) = m (next^[i] src) := by
  rw [movs_dest hinj hi, movs_other (hahead i hi)]

/-- **The first units are repeated** if the destination begins `k` units behind the source. -/
theorem movs_overlap (hk : 0 < k) (hdst : dst = next^[k] src)
    (hinj : ∀ i < k + n, ∀ j < k + n, next^[i] src = next^[j] src → i = j) (hi : i < n) :
    movs next n m src dst (next^[i] dst) = m (next^[i % k] src) := by
  have hplace : ∀ i, next^[i] dst = next^[i + k] src := fun i => by rw [hdst, Function.iterate_add_apply]
  have hinjDst : ∀ i < n, ∀ j < n, next^[i] dst = next^[j] dst → i = j := by
    intro i hi j hj heq
    rw [hplace, hplace] at heq
    have hsum := hinj (i + k) (by omega) (j + k) (by omega) heq
    exact Nat.add_right_cancel hsum
  induction i using Nat.strongRecOn with
  | ind i ih =>
    rw [movs_dest hinjDst hi]
    by_cases hlt : i < k
    · rw [Nat.mod_eq_of_lt hlt]
      apply movs_other
      intro j hj heq
      rw [hplace] at heq
      have hij := hinj i (by omega) (j + k) (by omega) heq
      omega
    · -- the unit has been copied before
      obtain ⟨j, rfl⟩ := Nat.exists_eq_add_of_le' (Nat.le_of_not_lt hlt)
      have hbefore := ih j (by omega) (by omega)
      rw [Nat.add_mod_right, ← hbefore, ← hplace j, movs_dest hinjDst (by omega : j < n)]
      exact movs_dest (fun i hi j' hj => hinjDst i (by omega) j' (by omega)) (by omega)

/-- The last unit that is stored. -/
theorem stos_succ (b : B) (n : ℕ) (m : A → B) (dst : A) :
    stos next b (n + 1) m dst = Function.update (stos next b n m dst) (next^[n] dst) b := by
  induction n generalizing m dst with
  | zero => rfl
  | succ n ih =>
    rw [stos, ih, Function.iterate_succ_apply]
    rfl

/-- Stores to one block change nothing else. -/
theorem stos_other (h : ∀ i < n, a ≠ next^[i] dst) : stos next b n m dst a = m a := by
  induction n with
  | zero => rfl
  | succ n ih =>
    rw [stos_succ, Function.update_of_ne (h n n.lt_succ_self)]
    exact ih fun i hi => h i (hi.trans n.lt_succ_self)

/-- **All units are stored.** -/
theorem stos_dest (hi : i < n) : stos next b n m dst (next^[i] dst) = b := by
  induction n with
  | zero => exact absurd hi i.not_lt_zero
  | succ n ih =>
    rw [stos_succ]
    by_cases heq : next^[i] dst = next^[n] dst
    · rw [heq, Function.update_self]
    · have hne : i ≠ n := fun hin => heq (by rw [hin])
      rw [Function.update_of_ne heq]
      exact ih (Nat.lt_of_le_of_ne (Nat.lt_succ_iff.mp hi) hne)

end

end Lib
