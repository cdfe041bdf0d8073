import Attos.Lib.Computes
import Attos.Lib.Ring

/-!
# The queue of scan codes

`fixed_size_queue` is a ring of `n` elements, a power of two, with two 32-bit positions that are
never reduced: an element is found at its position modulo `n`, and the number of elements is the
difference of the positions. The elements in the queue are its `contents`; a push appends one
(`contents_push`), and a pop takes the first one off (`contents_pop`), wherever the positions
wrap around.
-/

namespace Attos.Ps2

open Lib

/-- `fixed_size_queue` -/
structure FixedSizeQueue (α : Type) (n : ℕ) : Type where
  /-- the elements -/
  elems_ : ℕ → α
  /-- where the next element is read -/
  readPos_ : UInt32
  /-- where the next element is written -/
  writePos_ : UInt32

namespace FixedSizeQueue

variable {α : Type} {n : ℕ}

/-- `size` -/
def size (q : FixedSizeQueue α n) : ℕ := (q.writePos_ - q.readPos_).toNat

/-- `empty` -/
def empty (q : FixedSizeQueue α n) : Bool := q.size = 0

/-- `full` -/
def full (q : FixedSizeQueue α n) : Bool := q.size = n

/-- The element at a position. -/
def elemAt (q : FixedSizeQueue α n) (pos : UInt32) : α := q.elems_ (pos.toNat &&& (n - 1))

/-- `push` -/
def push (q : FixedSizeQueue α n) (elem : α) : FixedSizeQueue α n where
  elems_ := Function.update q.elems_ (q.writePos_.toNat &&& (n - 1)) elem
  readPos_ := q.readPos_
  writePos_ := q.writePos_ + 1

/-- `pop`: the element, and the queue without it. -/
def pop (q : FixedSizeQueue α n) : α × FixedSizeQueue α n :=
  (q.elemAt q.readPos_, { q with readPos_ := q.readPos_ + 1 })

/-- `std::any_of` from a position to `end()`. -/
def anyOf (q : FixedSizeQueue α n) (p : α → Bool) : ℕ → UInt32 → Outcome Bool
  | 0, _ => .running
  | fuel + 1, pos =>
    if pos = q.writePos_ then .done false
    else if p (q.elemAt pos) then .done true
    else q.anyOf p fuel (pos + 1)

/-- The `k` elements from a position on. -/
def elemsFrom (q : FixedSizeQueue α n) (pos : UInt32) (k : ℕ) : List α :=
  (List.range k).map fun i => q.elemAt (pos + UInt32.ofNat i)

/-- The elements in the queue, the oldest first. -/
def contents (q : FixedSizeQueue α n) : List α := q.elemsFrom q.readPos_ q.size

@[simp] theorem length_contents (q : FixedSizeQueue α n) : q.contents.length = q.size := by
  rw [contents, elemsFrom, List.length_map, List.length_range]

/-- They are met one by one. -/
theorem elemsFrom_succ (q : FixedSizeQueue α n) (pos : UInt32) (k : ℕ) :
    q.elemsFrom pos (k + 1) = q.elemAt pos :: q.elemsFrom (pos + 1) k := by
  have hsucc : ∀ i, pos + UInt32.ofNat (i + 1) = pos + 1 + UInt32.ofNat i := by
    intro i
    rw [UInt32.ofNat_add]
    grind
  have hzero : pos + UInt32.ofNat 0 = pos := UInt32.add_zero pos
  rw [elemsFrom, List.range_succ_eq_map, List.map_cons, List.map_map, hzero, elemsFrom]
  congr 1
  exact List.map_congr_left fun i _ => congrArg q.elemAt (hsucc i)

/-- The number of elements changes with the positions. -/
theorem size_push {q : FixedSizeQueue α n} {elem : α} (h : q.size + 1 < 2 ^ 32) :
    (q.push elem).size = q.size + 1 := by
  have hadd : q.writePos_ + 1 - q.readPos_ = q.writePos_ - q.readPos_ + 1 := by grind
  rw [size, push]
  dsimp only
  rw [hadd, UInt32.toNat_add]
  exact Nat.mod_eq_of_lt h

theorem size_pop {q : FixedSizeQueue α n} (h : q.size ≠ 0) : q.pop.2.size + 1 = q.size := by
  have hsub : q.writePos_ - q.readPos_ = q.writePos_ - (q.readPos_ + 1) + 1 := by grind
  have hlt := (q.writePos_ - (q.readPos_ + 1)).toNat_lt
  rw [size, hsub, UInt32.toNat_add] at h
  rw [size, size, hsub, UInt32.toNat_add, pop]
  dsimp only
  rcases Nat.lt_or_ge ((q.writePos_ - (q.readPos_ + 1)).toNat + 1) (2 ^ 32) with hle | hge
  · exact (Nat.mod_eq_of_lt hle).symm
  · have hmax : (q.writePos_ - (q.readPos_ + 1)).toNat + 1 = 2 ^ 32 := by omega
    exact absurd (by rw [UInt32.toNat_one, hmax, Nat.mod_self]) h

/-- A size that a queue can have. -/
def Fits (n : ℕ) : Prop := ∃ k ≤ 31, n = 2 ^ k

/-- A position is reduced to a slot, also when it wraps around. -/
theorem slot_add (hn : Fits n) (pos : UInt32) (i : ℕ) :
    (pos + UInt32.ofNat i).toNat &&& (n - 1) = (pos.toNat + i) % n := by
  obtain ⟨k, hk, rfl⟩ := hn
  have hdvd : 2 ^ k ∣ 2 ^ 32 := Nat.pow_dvd_pow 2 (by omega)
  rw [Nat.and_two_pow_sub_one_eq_mod, UInt32.toNat_add, UInt32.toNat_ofNat', Nat.mod_mod_of_dvd _ hdvd,
    Nat.add_mod, Nat.mod_mod_of_dvd _ hdvd, ← Nat.add_mod]

/-- The elements end at the write position. -/
theorem readPos_add_size (q : FixedSizeQueue α n) : q.readPos_ + UInt32.ofNat q.size = q.writePos_ := by
  rw [size, UInt32.ofNat_toNat]
  grind

/-- **A push** appends an element. -/
theorem contents_push (hn : Fits n) {q : FixedSizeQueue α n} {elem : α} (h : q.size < n) :
    (q.push elem).contents = q.contents ++ [elem] := by
  have hn' : n ≤ 2 ^ 31 := by
    obtain ⟨k, hk, rfl⟩ := hn
    exact Nat.pow_le_pow_right (by norm_num) hk
  have hwrite : q.writePos_.toNat &&& (n - 1) = (q.readPos_.toNat + q.size) % n := by
    rw [← readPos_add_size, slot_add hn]
  have hlast : (q.push elem).elemAt (q.readPos_ + UInt32.ofNat q.size) = elem := by
    rw [elemAt, readPos_add_size]
    exact Function.update_self ..
  have hothers : ∀ i < q.size, (q.push elem).elemAt (q.readPos_ + UInt32.ofNat i) =
      q.elemAt (q.readPos_ + UInt32.ofNat i) := by
    intro i hi
    have hslot : (q.readPos_ + UInt32.ofNat i).toNat &&& (n - 1) ≠ q.writePos_.toNat &&& (n - 1) := by
      rw [hwrite, slot_add hn]
      intro heq
      have := eq_of_slot_eq (Nat.le_add_right _ _) (by omega) (Nat.le_add_right _ _) (by omega) heq
      omega
    exact Function.update_of_ne hslot ..
  rw [contents, size_push (by omega), elemsFrom, List.range_succ, List.map_append, contents, elemsFrom]
  congr 1
  · exact List.map_congr_left fun i hi => hothers i (List.mem_range.mp hi)
  · rw [List.map_singleton]
    exact congrArg (fun a => [a]) hlast

/-- **A pop** takes off the first element. -/
theorem contents_pop {q : FixedSizeQueue α n} (h : q.size ≠ 0) :
    q.contents = q.pop.1 :: q.pop.2.contents := by
  rw [contents, ← size_pop h, elemsFrom_succ]
  rfl

/-- The end of the elements. -/
theorem eq_writePos (q : FixedSizeQueue α n) {pos : UInt32} (hpos : (q.writePos_ - pos).toNat = 0) :
    pos = q.writePos_ := by
  have hzero : q.writePos_ - pos = 0 := UInt32.toNat.inj hpos
  grind

/-- A position before the end, and the next one. -/
theorem ne_writePos (q : FixedSizeQueue α n) {k : ℕ} {pos : UInt32} (hpos : (q.writePos_ - pos).toNat = k + 1) :
    pos ≠ q.writePos_ ∧ (q.writePos_ - (pos + 1)).toNat = k := by
  have hsub : q.writePos_ - (pos + 1) = q.writePos_ - pos - 1 := by grind
  refine ⟨?_, ?_⟩
  · rintro rfl
    simp at hpos
  · rw [hsub, UInt32.toNat_sub_of_le _ _ (by rw [UInt32.le_iff_toNat_le, hpos]; simp), hpos]
    rfl

/-- The search looks at the rest of the elements, `k` steps before the end. -/
theorem anyOf_computes (q : FixedSizeQueue α n) (p : α → Bool) {k : ℕ} {pos : UInt32}
    (hpos : (q.writePos_ - pos).toNat = k) :
    Computes (fun fuel => q.anyOf p fuel pos) ((q.elemsFrom pos k).any p) := by
  induction k generalizing pos with
  | zero =>
    refine .step rfl (fun fuel => ?_) (.of_done fun _ => rfl)
    rw [anyOf, if_pos (q.eq_writePos hpos)]
    rfl
  | succ k ih =>
    obtain ⟨hne, hnext⟩ := q.ne_writePos hpos
    refine .step (g := fun fuel => if p (q.elemAt pos) then .done true else q.anyOf p fuel (pos + 1)) rfl
      (fun fuel => by rw [anyOf, if_neg hne]) ?_
    rw [elemsFrom_succ, List.any_cons]
    by_cases hp : p (q.elemAt pos)
    · simp only [hp, if_true, Bool.true_or]
      exact .of_done fun _ => rfl
    · simp only [hp, Bool.false_eq_true, if_false, Bool.false_or]
      exact ih hnext

/-- **The search** looks at the contents. -/
theorem anyOf_contents (q : FixedSizeQueue α n) (p : α → Bool) :
    Computes (fun fuel => q.anyOf p fuel q.readPos_) (q.contents.any p) :=
  q.anyOf_computes p rfl

end FixedSizeQueue

end Attos.Ps2
