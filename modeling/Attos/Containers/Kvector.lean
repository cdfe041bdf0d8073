import Attos.Lib.Outcome
import Attos.Lib.Word

/-!
# Vectors of owners

A `kvector` holds its elements in a block of memory, the slots of which are constructed and
destroyed by hand. The elements own resources: destroying a value releases its resources and
leaves an empty value behind, and so does moving from it. What each operation does to the list of
the elements (`contents`), and which resources it releases, is one lemma for each operation.

The memory that `kalloc` hands out has any values in it, so the lemmas say as well that no slot
matters before an element is constructed in it.
-/

namespace Attos.Containers

open Lib

/-! ## Elements -/

/-- What the members of an element type do. -/
structure ElementType (E R : Type) : Type where
  /-- `sizeof(T)` -/
  sizeof : ℕ
  /-- not zero -/
  sizeof_pos : 0 < sizeof
  /-- an element is in memory, the addresses of which have 52 bits -/
  sizeof_lt : sizeof < 2 ^ 52
  /-- `T()` -/
  default : E
  /-- the resources that a value owns, which its destructor releases -/
  resources : E → List R
  /-- what the destructor leaves -/
  destroy : E → E
  /-- what is left of a value that another one is constructed from by a move -/
  moveFrom : E → E
  /-- the move assignment: the new values of the target and of the source -/
  moveAssign : E → E → E × E

variable {E R : Type}

/-- Moves and destruction are like those of `owned_ptr`. -/
structure OwnedPtrLike (T : ElementType E R) : Prop where
  /-- the default value is empty -/
  default : T.resources T.default = []
  /-- destruction leaves an empty value -/
  destroy : ∀ e, T.resources (T.destroy e) = []
  /-- so do moves -/
  moveFrom : ∀ e, T.resources (T.moveFrom e) = []
  /-- assignment swaps -/
  moveAssign : ∀ a b, T.moveAssign a b = (b, a)

/-- Values are copied as they are, and own nothing. -/
structure TriviallyCopyable (T : ElementType E R) : Prop where
  /-- no resources -/
  resources : ∀ e, T.resources e = []
  /-- assignment copies -/
  moveAssign : ∀ a b, T.moveAssign a b = (b, b)

/-- What both kinds of types have in common. -/
structure Lawful (T : ElementType E R) : Prop where
  /-- the default value is empty -/
  default : T.resources T.default = []
  /-- destruction leaves an empty value -/
  destroy : ∀ e, T.resources (T.destroy e) = []
  /-- so do moves -/
  moveFrom : ∀ e, T.resources (T.moveFrom e) = []
  /-- assignment to an empty value moves the value -/
  moveAssign : ∀ a b, T.resources a = [] → (T.moveAssign a b).1 = b ∧ T.resources (T.moveAssign a b).2 = []

theorem OwnedPtrLike.lawful {T : ElementType E R} (h : OwnedPtrLike T) : Lawful T where
  default := h.default
  destroy := h.destroy
  moveFrom := h.moveFrom
  moveAssign a b ha := by
    rw [h.moveAssign]
    exact ⟨rfl, ha⟩

theorem TriviallyCopyable.lawful {T : ElementType E R} (h : TriviallyCopyable T) : Lawful T where
  default := h.resources _
  destroy _ := h.resources _
  moveFrom _ := h.resources _
  moveAssign a b _ := by
    rw [h.moveAssign]
    exact ⟨rfl, h.resources b⟩

/-- `kvector` -/
structure Kvector (E : Type) : Type where
  /-- the number of bytes of the block that `begin_` points to, if it is not null -/
  block : Option ℕ
  /-- the values in the block -/
  slots : ℕ → E
  /-- `end_ - begin_` -/
  size : ℕ
  /-- `real_end_ - begin_` -/
  capacity : ℕ

namespace Kvector

/-- The elements. -/
def contents (v : Kvector E) : List E := (List.range v.size).map v.slots

/-- A vector without a block. -/
def null (slots : ℕ → E) : Kvector E := ⟨none, slots, 0, 0⟩

variable (T : ElementType E R)

/-- `destroy_range` of `n` slots from `beg` on: the slots, and the resources that are released. -/
def destroyRange (beg : ℕ) : ℕ → (ℕ → E) → (ℕ → E) × List R
  | 0, slots => (slots, [])
  | n + 1, slots =>
    let last := slots (beg + n)
    let (slots', released) := destroyRange beg n (Function.update slots (beg + n) (T.destroy last))
    (slots', T.resources last ++ released)

/-- `clear`, with `destroy_range_and_free`. -/
def clear (v : Kvector E) : Kvector E × List R :=
  if v.block.isSome then
    let (slots, released) := destroyRange T 0 v.size v.slots
    (null slots, released)
  else (null v.slots, [])

/-- The loop of `erase`. -/
def eraseLoop : ℕ → ℕ → (ℕ → E) → ℕ → E
  | 0, _, slots => slots
  | n + 1, elem, slots =>
    let (target, source) := T.moveAssign (slots elem) (slots (elem + 1))
    eraseLoop n (elem + 1) (Function.update (Function.update slots elem target) (elem + 1) source)

/-- `erase` of the element `i`. -/
def erase (v : Kvector E) (i : ℕ) : Kvector E × List R :=
  let slots := Function.update v.slots i (T.destroy (v.slots i))
  ({ v with slots := eraseLoop T (v.size - 1 - i) i slots, size := v.size - 1 }, T.resources (v.slots i))

/-- `pop_back` -/
def popBack (v : Kvector E) : Kvector E × List R := erase T v (v.size - 1)

/-- Write values to `n` slots from `beg` on. -/
def fill (slots : ℕ → E) (beg n : ℕ) (f : ℕ → E) : ℕ → E := fun j =>
  if beg ≤ j ∧ j < beg + n then f (j - beg) else slots j

variable (limit : ℕ) (junk : ℕ → E)

/-- `reserve`. The memory that `kalloc` hands out, if there is so much, has any values in it. -/
def reserve (v : Kvector E) (newCapacity : ℕ) : Outcome (Kvector E × List R) :=
  if newCapacity ≤ v.capacity then .done (v, [])
  else do
    let bytes := u64 (T.sizeof * newCapacity)
    Outcome.require (bytes ≤ limit)
    let newSlots := fill junk 0 v.size v.slots
    let moved := fill v.slots 0 v.size fun j => T.moveFrom (v.slots j)
    let (_, released) := clear T { v with slots := moved }
    pure (⟨some bytes, newSlots, v.size, bytes / T.sizeof⟩, released)

/-- `ensure_room` -/
def ensureRoom (v : Kvector E) (requiredSize : ℕ) : Outcome (Kvector E × List R) :=
  if v.capacity < requiredSize then
    reserve T limit junk v (max requiredSize (if v.capacity ≠ 0 then u64 (2 * v.capacity) else 10))
  else .done (v, [])

/-- `push_back` of a value outside the vector. -/
def pushBack (v : Kvector E) (e : E) : Outcome (Kvector E × List R) := do
  let (v, released) ← ensureRoom T limit junk v (v.size + 1)
  pure ({ v with slots := Function.update v.slots v.size e, size := v.size + 1 }, released)

/-- `resize`. The end of the elements is an address, and the loop does not end if it steps over this
address. -/
def resize (v : Kvector E) (newSize : ℕ) : Outcome (Kvector E × List R) :=
  if newSize ≤ v.size then
    let (slots, released) := destroyRange T newSize (v.size - newSize) v.slots
    .done ({ v with slots := slots, size := newSize }, released)
  else do
    let (v, released) ← ensureRoom T limit junk v newSize
    let newEnd := u64 (T.sizeof * newSize)
    if T.sizeof * v.size ≤ newEnd ∧ newEnd % T.sizeof = 0 then
      let size := newEnd / T.sizeof
      pure ({ v with slots := fill v.slots v.size (size - v.size) fun _ => T.default, size := size }, released)
    else .running

/-- `insert` at the end, of values outside the vector. -/
def insert (v : Kvector E) (elems : List E) : Outcome (Kvector E × List R) := do
  let (v, released) ← ensureRoom T limit junk v (v.size + elems.length)
  let slots := fill v.slots v.size elems.length fun j => elems.getD j T.default
  pure ({ v with slots := slots, size := v.size + elems.length }, released)

/-- The copy assignment: a vector that is constructed from the elements of the other one takes the
place of the cleared one. -/
def copyAssign (v other : Kvector E) : Outcome (Kvector E × List R) := do
  let (v, released) := clear T v
  let (copy, released') ← insert T limit junk (null junk) other.contents
  let (v, copy) := (copy, v)
  let (_, released'') := clear T copy
  pure (v, released ++ (released' ++ released''))

/-- The copy constructor. -/
def copyConstruct (other : Kvector E) : Outcome (Kvector E × List R) := copyAssign T limit junk (null junk) other

/-! ## The elements -/

variable {T limit junk} {v v' : Kvector E} {released : List R} {n beg i j : ℕ} {slots : ℕ → E} {f : ℕ → E}

@[simp] theorem length_contents (v : Kvector E) : v.contents.length = v.size := by
  rw [contents, List.length_map, List.length_range]

theorem getElem_contents (v : Kvector E) (h : j < v.contents.length) : v.contents[j] = v.slots j := by
  simp only [contents, List.getElem_map, List.getElem_range]

/-- The elements are the first values in the block. -/
theorem contents_eq {l : List E} (hlength : v.size = l.length)
    (h : ∀ j (hj : j < l.length), v.slots j = l[j]) : v.contents = l := by
  apply List.ext_getElem
  · rw [length_contents, hlength]
  · intro j hj hj'
    rw [getElem_contents, h j hj']

theorem fill_of_lt (h : j < beg) : fill slots beg n f j = slots j := by
  rw [fill, if_neg (by omega)]

theorem fill_of_mem (h : beg ≤ j) (h' : j < beg + n) : fill slots beg n f j = f (j - beg) := by
  rw [fill, if_pos ⟨h, h'⟩]

/-- **`destroy_range` releases the resources** from the last one to the first, and leaves the slots
before the range alone. -/
theorem destroyRange_eq : (destroyRange T beg n slots).2 =
      ((List.range n).map fun i => slots (beg + i)).reverse.flatMap T.resources ∧
    ∀ j < beg, (destroyRange T beg n slots).1 j = slots j := by
  induction n generalizing slots with
  | zero => exact ⟨rfl, fun _ _ => rfl⟩
  | succ n ih =>
    rw [destroyRange]
    obtain ⟨hreleased, hslots⟩ := @ih (Function.update slots (beg + n) (T.destroy (slots (beg + n))))
    have hrest : (List.range n).map (fun i => Function.update slots (beg + n) (T.destroy (slots (beg + n))) (beg + i)) =
        (List.range n).map fun i => slots (beg + i) := by
      apply List.map_congr_left
      intro i hi
      rw [List.mem_range] at hi
      rw [Function.update_of_ne (by omega)]
    refine ⟨?_, ?_⟩
    · dsimp only
      rw [hreleased, hrest, List.range_succ, List.map_append, List.reverse_append]
      rfl
    · intro j hj
      dsimp only
      rw [hslots j hj, Function.update_of_ne (by omega)]

/-- **`clear` releases all resources.** -/
theorem clear_released (hsize : v.block = none → v.size = 0) :
    (clear T v).2 = v.contents.reverse.flatMap T.resources := by
  rw [clear]
  cases hblock : v.block with
  | none =>
    have hnil : v.contents = [] := List.length_eq_zero_iff.mp (by rw [length_contents, hsize hblock])
    rw [hnil]
    rfl
  | some bytes =>
    rw [Option.isSome_some, if_pos rfl]
    dsimp only
    rw [(destroyRange_eq).1, contents]
    simp only [Nat.zero_add]

/-- The vector is in its block. -/
structure Good (T : ElementType E R) (limit : ℕ) (v : Kvector E) : Prop where
  /-- the elements are in the capacity -/
  size_le : v.size ≤ v.capacity
  /-- which is in the block -/
  capacity_le : T.sizeof * v.capacity ≤ v.block.getD 0
  /-- which is in memory -/
  block_le : v.block.getD 0 ≤ limit

theorem good_null (slots : ℕ → E) : Good T limit (null slots) := ⟨le_rfl, le_rfl, Nat.zero_le limit⟩

theorem Good.mul_size_le (hv : Good T limit v) : T.sizeof * v.size ≤ limit :=
  (Nat.mul_le_mul_left _ hv.size_le).trans (hv.capacity_le.trans hv.block_le)

/-- There are no elements without a block. -/
theorem Good.size_of_none (hv : Good T limit v) (h : v.block = none) : v.size = 0 := by
  have hcapacity := hv.capacity_le
  rw [h, Option.getD_none, Nat.le_zero, Nat.mul_eq_zero] at hcapacity
  have hsize := hv.size_le
  have hpos := T.sizeof_pos
  omega

/-- A shorter vector is in the block. -/
theorem Good.shrink (hv : Good T limit v) (hn : n ≤ v.size) : Good T limit { v with slots := slots, size := n } :=
  ⟨hn.trans hv.size_le, hv.capacity_le, hv.block_le⟩

theorem Good.erase (hv : Good T limit v) : Good T limit (erase T v i).1 := hv.shrink (Nat.sub_le _ _)

/-- **`reserve` keeps the elements** and releases nothing, unless the size of the block overflows. -/
theorem reserve_eq_done (hT : Lawful T) (hv : Good T limit v) (hn : T.sizeof * n < 2 ^ 64)
    (h : reserve T limit junk v n = .done (v', released)) :
    v'.contents = v.contents ∧ v'.size = v.size ∧ released = [] ∧ Good T limit v' ∧ n ≤ v'.capacity := by
  rw [reserve] at h
  split_ifs at h with hle
  · cases h
    exact ⟨rfl, rfl, rfl, hv, hle⟩
  · rw [Outcome.require_bind_eq_done, u64, Nat.mod_eq_of_lt hn] at h
    obtain ⟨hlimit, h⟩ := h
    let moved : Kvector E := { v with slots := fill v.slots 0 v.size fun j => T.moveFrom (v.slots j) }
    have hmoved : moved.block = none → moved.size = 0 := hv.size_of_none
    have hpair : ((⟨some (T.sizeof * n), fill junk 0 v.size v.slots, v.size, T.sizeof * n / T.sizeof⟩ : Kvector E),
        (clear T moved).2) = (v', released) := Outcome.done.inj h
    obtain ⟨rfl, rfl⟩ := Prod.mk.inj hpair
    have hcapacity : T.sizeof * n / T.sizeof = n := Nat.mul_div_cancel_left n T.sizeof_pos
    refine ⟨?_, rfl, ?_, ⟨?_, ?_, hlimit⟩, hcapacity.ge⟩
    · apply contents_eq
      · rw [length_contents]
      · intro j hj
        rw [length_contents] at hj
        rw [getElem_contents]
        dsimp only
        rw [fill_of_mem (Nat.zero_le j) (by omega), Nat.sub_zero]
    · rw [clear_released hmoved, List.flatMap_eq_nil_iff]
      intro e he
      rw [List.mem_reverse, contents, List.mem_map] at he
      obtain ⟨j, hj, rfl⟩ := he
      rw [List.mem_range] at hj
      have hslot : moved.slots j = T.moveFrom (v.slots j) := by
        dsimp only [moved] at hj ⊢
        rw [fill_of_mem (Nat.zero_le j) (by omega), Nat.sub_zero]
      rw [hslot]
      exact hT.moveFrom _
    · have hsize := hv.size_le
      dsimp only
      rw [hcapacity]
      omega
    · dsimp only
      rw [hcapacity, Option.getD_some]

/-- **`ensure_room` makes room.** -/
theorem ensureRoom_eq_done (hT : Lawful T) (hv : Good T limit v) (hlimit : limit < 2 ^ 52)
    (hn : T.sizeof * n < 2 ^ 64) (h : ensureRoom T limit junk v n = .done (v', released)) :
    v'.contents = v.contents ∧ v'.size = v.size ∧ released = [] ∧ Good T limit v' ∧ n ≤ v'.capacity := by
  rw [ensureRoom] at h
  split_ifs at h with hlt hne
  · -- Twice the capacity is still in memory.
    have hcapacity : T.sizeof * v.capacity ≤ limit := hv.capacity_le.trans hv.block_le
    have htwice : T.sizeof * (2 * v.capacity) < 2 ^ 64 := by
      rw [Nat.mul_left_comm]
      omega
    have hle : 2 * v.capacity ≤ T.sizeof * (2 * v.capacity) := Nat.le_mul_of_pos_left _ T.sizeof_pos
    rw [u64, Nat.mod_eq_of_lt (by omega)] at h
    have hmax : T.sizeof * max n (2 * v.capacity) < 2 ^ 64 := by
      rw [← Nat.mul_max_mul_left]
      exact max_lt hn htwice
    obtain ⟨hcontents, hsize, hreleased, hgood, hroom⟩ := reserve_eq_done hT hv hmax h
    exact ⟨hcontents, hsize, hreleased, hgood, (le_max_left _ _).trans hroom⟩
  · have hsizeof := T.sizeof_lt
    have hmax : T.sizeof * max n 10 < 2 ^ 64 := by
      rw [← Nat.mul_max_mul_left]
      exact max_lt hn (by omega)
    obtain ⟨hcontents, hsize, hreleased, hgood, hroom⟩ := reserve_eq_done hT hv hmax h
    exact ⟨hcontents, hsize, hreleased, hgood, (le_max_left _ _).trans hroom⟩
  · cases h
    exact ⟨rfl, rfl, rfl, hv, by omega⟩

/-- Values that are written behind the elements are appended. -/
theorem contents_fill {size : ℕ} {l : List E} (hn : n = l.length) (hsize : size = v.size + l.length)
    (hf : ∀ j (hj : j < l.length), f j = l[j]) :
    Kvector.contents { v with slots := fill v.slots v.size n f, size := size } = v.contents ++ l := by
  subst hn
  apply contents_eq
  · rw [List.length_append, length_contents, hsize]
  · intro j hj
    rw [List.length_append, length_contents] at hj
    dsimp only
    by_cases hlt : j < v.size
    · have hlt' : j < v.contents.length := by rwa [length_contents]
      rw [fill_of_lt hlt, List.getElem_append_left hlt', getElem_contents]
    · have hge : v.contents.length ≤ j := by
        rw [length_contents]
        omega
      have hj' : j - v.size < l.length := by omega
      rw [fill_of_mem (by omega) hj, hf _ hj', List.getElem_append_right hge]
      congr 1
      rw [length_contents]

/-- **`push_back` appends an element.** -/
theorem pushBack_eq_done (hT : Lawful T) (hv : Good T limit v) (hlimit : limit < 2 ^ 52) {e : E}
    (h : pushBack T limit junk v e = .done (v', released)) :
    v'.contents = v.contents ++ [e] ∧ released = [] ∧ Good T limit v' := by
  obtain ⟨⟨v₁, released₁⟩, hroom, h⟩ := Outcome.bind_eq_done.mp h
  cases h
  have hmul := hv.mul_size_le
  have hsizeof := T.sizeof_lt
  have hn : T.sizeof * (v.size + 1) < 2 ^ 64 := by
    rw [Nat.mul_succ]
    omega
  obtain ⟨hcontents, hsize, hreleased, hgood, hcapacity⟩ := ensureRoom_eq_done hT hv hlimit hn hroom
  refine ⟨?_, hreleased, ⟨hsize ▸ hcapacity, hgood.capacity_le, hgood.block_le⟩⟩
  have hfill : Function.update v₁.slots v₁.size e = fill v₁.slots v₁.size 1 fun _ => e := by
    funext j
    rw [fill]
    by_cases hj : j = v₁.size
    · subst hj
      rw [Function.update_self, if_pos ⟨le_rfl, Nat.lt_succ_self _⟩]
    · rw [Function.update_of_ne hj, if_neg (by omega)]
  rw [hfill, ← hcontents]
  apply contents_fill
  · rfl
  · rfl
  · intro j hj
    rw [List.getElem_singleton]

/-! ## The growth of a vector -/

/-- The capacity after `n` calls of `push_back`. -/
def capacityAfter : ℕ → ℕ
  | 0 => 0
  | n + 1 =>
    let capacity := capacityAfter n
    if capacity < n + 1 then max (n + 1) (if capacity ≠ 0 then 2 * capacity else 10) else capacity

theorem capacityAfter_succ (n : ℕ) : capacityAfter (n + 1) =
    if capacityAfter n < n + 1 then max (n + 1) (if capacityAfter n ≠ 0 then 2 * capacityAfter n else 10)
    else capacityAfter n := rfl

theorem capacityAfter_mono : Monotone capacityAfter := by
  apply monotone_nat_of_le_succ
  intro n
  rw [capacityAfter_succ]
  split_ifs <;> omega

/-- The vector has had nothing but calls of `push_back`. -/
def Pushed (v : Kvector E) : Prop := v.capacity = capacityAfter v.size

/-- **The next element** needs a block for the capacity behind it. -/
theorem ensureRoom_pushed (hv : Good T limit v) (hpushed : v.Pushed) (hlimit : limit < 2 ^ 52) :
    if T.sizeof * capacityAfter (v.size + 1) ≤ limit then
      ∃ v' released, ensureRoom T limit junk v (v.size + 1) = .done (v', released) ∧
        v'.capacity = capacityAfter (v.size + 1) ∧ v'.size = v.size
    else ensureRoom T limit junk v (v.size + 1) = .abort := by
  have hcapacity : T.sizeof * v.capacity ≤ limit := hv.capacity_le.trans hv.block_le
  rw [capacityAfter_succ, ← hpushed, ensureRoom]
  by_cases hlt : v.capacity < v.size + 1
  · have hle : v.capacity ≤ T.sizeof * v.capacity := Nat.le_mul_of_pos_left _ T.sizeof_pos
    have htwice : u64 (2 * v.capacity) = 2 * v.capacity := Nat.mod_eq_of_lt (by omega)
    rw [if_pos hlt, if_pos hlt, htwice]
    -- The vector is full, so that its new size is not more than twice the old one.
    have hsize : v.size = v.capacity := le_antisymm hv.size_le (Nat.lt_succ_iff.mp hlt)
    have hmore : v.capacity < max (v.size + 1) (if v.capacity ≠ 0 then 2 * v.capacity else 10) :=
      lt_max_of_lt_left hlt
    generalize hn : max (v.size + 1) (if v.capacity ≠ 0 then 2 * v.capacity else 10) = n at hmore
    have hbound : n ≤ 2 * v.capacity + 10 := by
      rw [← hn]
      split_ifs <;> omega
    have hfits : T.sizeof * n < 2 ^ 64 := by
      have hsizeof := T.sizeof_lt
      calc T.sizeof * n ≤ T.sizeof * (2 * v.capacity + 10) := Nat.mul_le_mul_left _ hbound
        _ = 2 * (T.sizeof * v.capacity) + 10 * T.sizeof := by ring
        _ < 2 ^ 64 := by omega
    rw [reserve, if_neg (not_le.mpr hmore), u64, Nat.mod_eq_of_lt hfits]
    dsimp only
    split_ifs with hroom
    · rw [Outcome.require_pos hroom]
      exact ⟨_, _, rfl, Nat.mul_div_cancel_left n T.sizeof_pos, rfl⟩
    · rw [Outcome.require_neg hroom]
      rfl
  · rw [if_neg hlt, if_neg hlt, if_pos hcapacity]
    exact ⟨v, [], rfl, rfl, rfl⟩

/-- **`push_back` fails** if there is not so much memory. -/
theorem lt_of_pushBack_abort (hv : Good T limit v) (hpushed : v.Pushed) (hlimit : limit < 2 ^ 52) {e : E}
    (h : pushBack T limit junk v e = .abort) : limit < T.sizeof * capacityAfter (v.size + 1) := by
  have hroom := @ensureRoom_pushed _ _ T limit junk v hv hpushed hlimit
  split_ifs at hroom with hle
  · obtain ⟨v₁, released₁, hroom, -⟩ := hroom
    rw [pushBack, hroom] at h
    cases h
  · exact not_le.mp hle

/-- The vector is ready for the next element. -/
theorem pushBack_pushed (hv : Good T limit v) (hpushed : v.Pushed) (hlimit : limit < 2 ^ 52) {e : E}
    (h : pushBack T limit junk v e = .done (v', released)) : v'.Pushed := by
  have hroom := @ensureRoom_pushed _ _ T limit junk v hv hpushed hlimit
  rw [pushBack] at h
  split_ifs at hroom with hle
  · obtain ⟨v₁, released₁, hroom, hcapacity, hsize⟩ := hroom
    rw [hroom] at h
    cases h
    exact hcapacity.trans (congrArg (fun n => capacityAfter (n + 1)) hsize.symm)
  · rw [hroom] at h
    cases h

/-- The elements are in a block of their own. Behind them is what was in the memory. -/
structure Stored (T : ElementType E R) (junk : ℕ → E) (l : List E) (v : Kvector E) : Prop where
  /-- room for ten elements at least, and no block for none -/
  block : v.block = if l = [] then none else some (T.sizeof * max l.length 10)
  /-- the number of elements -/
  size : v.size = l.length
  /-- the values in the block -/
  slots : ∀ j, v.slots j = l.getD j (junk j)

theorem Stored.slots_of_lt {l : List E} (h : Stored T junk l v) (hj : j < l.length) : v.slots j = l[j] := by
  rw [h.slots, List.getD_eq_getElem?_getD, List.getElem?_eq_getElem hj, Option.getD_some]

theorem Stored.slots_of_ge {l : List E} (h : Stored T junk l v) (hj : l.length ≤ j) : v.slots j = junk j := by
  rw [h.slots, List.getD_eq_getElem?_getD, List.getElem?_eq_none hj, Option.getD_none]

theorem Stored.contents {l : List E} (h : Stored T junk l v) : v.contents = l :=
  contents_eq h.size fun _ hj => h.slots_of_lt hj

/-- A vector without a block gets one, if there is so much memory. -/
theorem ensureRoom_null (hn : 0 < n) (hfits : T.sizeof * max n 10 < 2 ^ 64) :
    ensureRoom T limit junk (null junk) n = Outcome.require (T.sizeof * max n 10 ≤ limit) >>= fun _ =>
      .done (⟨some (T.sizeof * max n 10), junk, 0, max n 10⟩, []) := by
  have hlt : (null junk : Kvector E).capacity < n := hn
  have hnot : ¬ max n 10 ≤ (null junk : Kvector E).capacity := by
    rw [not_le]
    exact lt_max_of_lt_left hn
  have hzero : ¬ (null junk : Kvector E).capacity ≠ 0 := not_not_intro rfl
  -- no elements are moved to the block
  have hslots : fill junk 0 (null junk : Kvector E).size (null junk).slots = junk := by
    funext j
    exact if_neg fun hj => Nat.not_lt_zero j hj.2
  have hcapacity : T.sizeof * max n 10 / T.sizeof = max n 10 := Nat.mul_div_cancel_left _ T.sizeof_pos
  rw [ensureRoom, if_pos hlt, if_neg hzero, reserve, if_neg hnot, u64, Nat.mod_eq_of_lt hfits]
  dsimp only
  rw [hslots, hcapacity]
  rfl

/-- **A new vector of the elements of a list** has a new block. -/
theorem insert_null_eq_done {l : List E} (hfits : T.sizeof * max l.length 10 < 2 ^ 64)
    (h : insert T limit junk (null junk) l = .done (v, released)) : Stored T junk l v := by
  have hfill : ∀ j, fill junk 0 l.length (fun j => l.getD j T.default) j = l.getD j (junk j) := by
    intro j
    rw [List.getD_eq_getElem?_getD]
    rcases Nat.lt_or_ge j l.length with hj | hj
    · rw [fill_of_mem (Nat.zero_le j) (by rwa [Nat.zero_add]), Nat.sub_zero, List.getD_eq_getElem?_getD,
        List.getElem?_eq_getElem hj, Option.getD_some, Option.getD_some]
    · rw [fill, if_neg (by omega), List.getElem?_eq_none hj, Option.getD_none]
  obtain ⟨⟨v₁, released₁⟩, hroom, h⟩ := Outcome.bind_eq_done.mp h
  obtain ⟨rfl, -⟩ := Prod.mk.inj (Outcome.done.inj h)
  have hsize : (null junk : Kvector E).size + l.length = l.length := Nat.zero_add _
  rw [hsize] at hroom
  cases l with
  | nil =>
    obtain ⟨rfl, -⟩ := Prod.mk.inj (Outcome.done.inj hroom)
    exact ⟨rfl, rfl, hfill⟩
  | cons e l =>
    rw [ensureRoom_null (List.length_pos_of_mem List.mem_cons_self) hfits] at hroom
    obtain ⟨-, hroom⟩ := Outcome.require_bind_eq_done.mp hroom
    obtain ⟨rfl, -⟩ := Prod.mk.inj (Outcome.done.inj hroom)
    exact ⟨rfl, Nat.zero_add _, hfill⟩

/-- It is made if there is so much memory. -/
theorem insert_null_returns {l : List E} (hl : T.sizeof * max l.length 10 ≤ limit) (hlimit : limit < 2 ^ 64) :
    (insert T limit junk (null junk) l).Returns := by
  have hsize : (null junk : Kvector E).size + l.length = l.length := Nat.zero_add _
  have hroom : (ensureRoom T limit junk (null junk) l.length).Returns := by
    cases l with
    | nil => exact Outcome.done_returns _
    | cons e l =>
      rw [ensureRoom_null (List.length_pos_of_mem List.mem_cons_self) (hl.trans_lt hlimit)]
      exact Outcome.require_bind_returns.mpr ⟨hl, Outcome.done_returns _⟩
  obtain ⟨p, hroom⟩ := hroom
  rw [insert, hsize, hroom]
  exact Outcome.done_returns _

/-- **A copy** has a block of its own. -/
theorem copyConstruct_stored {other : Kvector E} (hl : T.sizeof * max other.size 10 < 2 ^ 64)
    (h : copyConstruct T limit junk other = .done (v, released)) : Stored T junk other.contents v := by
  obtain ⟨⟨copy, released'⟩, hcopy, h⟩ := Outcome.bind_eq_done.mp h
  obtain ⟨rfl, -⟩ := Prod.mk.inj (Outcome.done.inj h)
  rw [← length_contents] at hl
  exact insert_null_eq_done hl hcopy

theorem copyConstruct_returns {other : Kvector E} (hl : T.sizeof * max other.size 10 ≤ limit)
    (hlimit : limit < 2 ^ 64) : (copyConstruct T limit junk other).Returns := by
  rw [← length_contents] at hl
  have hinsert : (insert T limit junk (null junk) other.contents).Returns := insert_null_returns hl hlimit
  obtain ⟨p, hcopy⟩ := hinsert
  exact Outcome.bind_returns.mpr ⟨p, hcopy, Outcome.done_returns _⟩

/-! ## The ends of the calls -/

theorem reserve_ends : (reserve T limit junk v n).Ends := by
  rw [reserve]
  split_ifs
  · exact Outcome.done_ends _
  · exact Outcome.require_ends.bind fun _ _ => Outcome.done_ends _

theorem ensureRoom_ends : (ensureRoom T limit junk v n).Ends := by
  rw [ensureRoom]
  split_ifs
  · exact reserve_ends
  · exact reserve_ends
  · exact Outcome.done_ends _

theorem pushBack_ends {e : E} : (pushBack T limit junk v e).Ends :=
  ensureRoom_ends.bind fun _ _ => Outcome.done_ends _

end Kvector

end Attos.Containers
